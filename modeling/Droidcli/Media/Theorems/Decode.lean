import Droidcli.Lib.Ownership
import Droidcli.Media.Decode
import Droidcli.Media.Theorems.Store

namespace Droidcli.Media

open Bytes Interaction Prog Ownership

-- What FFmpeg has handed out and is to get back. The contents of a packet are apart from it.
inductive Thing
  | buffer (p : Pointer)
  | avio (p : Pointer)
  | format (p : Pointer)
  | codec (p : Pointer)
  | packet (p : Pointer)
  | contents (p : Pointer)
  | frame (p : Pointer)
  | scaler (p : Pointer)
  | exhausted -- only the fact that there was no memory for a packet or a frame
  deriving DecidableEq

section Deals

-- What a pointer stands for that has to be there. Null is given where there was no memory.
def needed (thing : Pointer → Thing) : Option Pointer → List Thing
  | some p => [thing p]
  | none   => [.exhausted]

def owned (thing : Pointer → Thing) (pointer : Option Pointer) : List Thing :=
  pointer.toList.map thing

-- What FFmpeg says of its calls. An input that is given its I/O context does not free it.
def mediaDeal : Event MediaRes → Deal Thing
  | ⟨.avMalloc _, r⟩                       => .make [] (owned .buffer r)
  | ⟨.avFree buffer, _⟩                    => .free [.buffer buffer]
  | ⟨.avioAllocContext buffer _, r⟩        => .make [.buffer buffer] (owned .avio r)
  | ⟨.avioContextFree avio, _⟩             => .free [.avio avio]
  | ⟨.avformatAllocContext, r⟩             => .make [] (owned .format r)
  | ⟨.setPb context avio, _⟩               => .use [.format context, .avio avio]
  | ⟨.avformatOpenInput context _, r⟩      =>
    { Deal.free (owned .format context) with
      fresh := (owned .format r).filter (· ∉ owned .format context)
      given := owned .format r }
  | ⟨.avformatFreeContext context, _⟩      => .free (owned .format context)
  | ⟨.avformatCloseInput context, _⟩       => .free [.format context]
  | ⟨.avformatFindStreamInfo context, _⟩   => .use [.format context]
  | ⟨.formatName context, _⟩               => .use [.format context]
  | ⟨.formatDuration context, _⟩           => .use [.format context]
  | ⟨.streamInfo context _, _⟩             => .use [.format context]
  | ⟨.avFindBestStream context, _⟩         => .use [.format context]
  | ⟨.avcodecFindDecoder context _, _⟩     => .use [.format context]
  | ⟨.avcodecAllocContext3 _, r⟩           => .make [] (owned .codec r)
  | ⟨.avcodecParametersToContext codecContext context _, _⟩ =>
    .use [.codec codecContext, .format context]
  | ⟨.avcodecOpen2 codecContext _, _⟩      => .use [.codec codecContext]
  | ⟨.avcodecFreeContext codecContext, _⟩  => .free [.codec codecContext]
  | ⟨.avPacketAlloc, r⟩                    =>
    { Deal.none with fresh := owned .packet r ++ owned .contents r, given := needed .packet r }
  | ⟨.avFrameAlloc, r⟩                     =>
    { Deal.none with fresh := owned .frame r, given := needed .frame r }
  | ⟨.avReadFrame context packet, r⟩       =>
    { Deal.use (.format context :: needed .packet packet) with
      vacant := owned .contents packet
      given := if r.code < 0 then [] else owned .contents packet }
  | ⟨.avPacketUnref packet, _⟩             =>
    { Deal.use (needed .packet packet) with dropped := owned .contents packet }
  | ⟨.avcodecSendPacket codecContext packet, _⟩    =>
    .use (.codec codecContext :: needed .packet packet ++ owned .contents packet)
  | ⟨.avcodecReceiveFrame codecContext frame, _⟩   =>
    .use (.codec codecContext :: needed .frame frame)
  | ⟨.swsGetContext frame, r⟩              => .make [.frame frame] (owned .scaler r)
  | ⟨.swsScale scaler frame, _⟩            => .use [.scaler scaler, .frame frame]
  | ⟨.swsFreeContext scaler, _⟩            => .free [.scaler scaler]
  | ⟨.avFrameFree frame, _⟩                => .free (owned .frame frame)
  | ⟨.avPacketFree packet, _⟩              =>
    { Deal.free (owned .packet packet) with
      dropped := owned .packet packet ++ owned .contents packet }
  | _                                      => .none

end Deals

-- What is left is all that matters.
abbrev MediaKeeps {α : Type} (Q : α → Set Thing → Prop) (p : MediaM α) (live : Set Thing) : Prop :=
  Keeps mediaDeal (fun _ => Q) p live

-- But for the lack of memory, the same things.
def Same (live live' : Set Thing) : Prop :=
  ∀ x, x ≠ .exhausted → (x ∈ live' ↔ x ∈ live)

variable {live live' : Set Thing} {image : RgbaImage} {framePointer packet : Option Pointer}
  {context codecContext : Pointer} {streamIndex : Int} {fuel : Nat} {path label : Bytes}

section Frames

theorem keeps_frameToRgba {frame : Frame} (hf : ∀ p ∈ framePointer, .frame p ∈ live) :
    MediaKeeps (fun _ live' => live' = live) (frameToRgba framePointer frame image) live := by
  cases framePointer
  case none => exact keeps_ret rfl
  case some p =>
    have hp : .frame p ∈ live := hf p rfl
    rw [frameToRgba]
    split
    case isTrue => exact keeps_ret rfl
    case isFalse =>
      refine keeps_make (fun _ => rfl) (by simpa) fun r hr => ?_
      cases r
      case none => exact keeps_ret (by simp [owned])
      case some scaler =>
        refine keeps_use (fun _ => rfl) (by simp [owned, hp]) fun _ => ?_
        refine keeps_free (fun _ => rfl) (by simp [owned]) fun _ => ?_
        exact keeps_ret (Deal.diff_of_fresh hr)

-- What a packet takes to be decoded, with null where there was no memory for it.
structure Ready (live : Set Thing) (codecContext : Pointer) (packet frame : Option Pointer) :
    Prop where
  codec  : .codec codecContext ∈ live
  packet : ∀ x ∈ needed .packet packet, x ∈ live
  frame  : ∀ x ∈ needed .frame frame, x ∈ live

theorem keeps_decodePacket (h : Ready live codecContext packet framePointer)
    (hc : ∀ x ∈ owned .contents packet, x ∈ live) :
    MediaKeeps (fun _ live' => live' = live) (decodePacket codecContext packet framePointer image)
      live := by
  have hs : ∀ x ∈ .codec codecContext :: needed .packet packet ++ owned .contents packet,
      x ∈ live := by
    simpa [or_imp, forall_and, h.codec] using ⟨h.packet, hc⟩
  have hr : ∀ x ∈ .codec codecContext :: needed .frame framePointer, x ∈ live :=
    List.forall_mem_cons.mpr ⟨h.codec, h.frame⟩
  refine keeps_use (fun _ => rfl) hs fun code => ?_
  split
  case isTrue => exact keeps_ret rfl
  case isFalse =>
    refine keeps_use (fun _ => rfl) hr fun received => ?_
    split
    case isTrue  => exact keeps_ret rfl
    case isFalse =>
      refine keeps_frameToRgba fun p hp => h.frame _ ?_
      simp [Option.mem_def.mp hp, needed]

-- With the contents of the packet.
abbrev filled (live : Set Thing) (packet : Option Pointer) : Set Thing :=
  {x | x ∈ live ∨ x ∈ owned .contents packet}

theorem Ready.filled (h : Ready live codecContext packet framePointer) :
    Ready (filled live packet) codecContext packet framePointer where
  codec      := .inl h.codec
  packet x m := .inl (h.packet x m)
  frame x m  := .inl (h.frame x m)

theorem keeps_unref {α : Type} {Q : α → Set Thing → Prop} {f : Unit → MediaM α}
    (hp : ∀ x ∈ needed .packet packet, x ∈ live) (hc : ∀ x ∈ owned .contents packet, x ∉ live)
    (hf : MediaKeeps Q (f ()) live) :
    MediaKeeps Q (call (.avPacketUnref packet) >>= f) (filled live packet) := by
  have hlive : (mediaDeal ⟨.avPacketUnref packet, ()⟩).after (filled live packet) = live := by
    refine Eq.trans ?_ (Deal.diff_of_fresh hc)
    simp [mediaDeal, Deal.after, Deal.use, Deal.none]
  refine keeps_call fun _ _ =>
    ⟨⟨fun x hx => .inl (hp x hx), by simp [mediaDeal, Deal.use, Deal.none]⟩, ?_⟩
  rw [hlive]
  exact hf

theorem keeps_decodePackets (h : Ready live codecContext packet framePointer)
    (hf : .format context ∈ live) (hc : ∀ x ∈ owned .contents packet, x ∉ live) :
    MediaKeeps (fun _ live' => live' = live)
      (decodePackets context codecContext packet framePointer streamIndex image fuel) live := by
  induction fuel generalizing image
  case zero => exact keeps_ret rfl
  case succ fuel hi =>
    refine keeps_call fun read _ => ⟨⟨List.forall_mem_cons.mpr ⟨hf, h.packet⟩, hc⟩, ?_⟩
    by_cases hr : read.code < 0
    case pos =>
      simp only [hr, ↓reduceIte]
      exact keeps_ret (by simp [mediaDeal, Deal.after, Deal.use, Deal.none, hr])
    case neg =>
      have hlive : (mediaDeal ⟨.avReadFrame context packet, read⟩).after live =
          filled live packet := by
        simp [mediaDeal, Deal.after, Deal.use, Deal.none, hr]
      rw [hlive]
      simp only [hr, ↓reduceIte]
      split
      case isTrue => exact keeps_unref h.packet hc hi
      case isFalse =>
        refine keeps_bind (keeps_decodePacket h.filled fun x m => .inr m) fun _ result _ hl => ?_
        obtain ⟨decoded, image⟩ := result
        subst hl
        refine keeps_unref h.packet hc ?_
        cases decoded
        case false => exact hi
        case true  => exact keeps_ret rfl

end Frames

section Contexts

-- What is given and taken away again.
def Restores (live : Set Thing) (result : Option (Bool × RgbaImage)) (live' : Set Thing) : Prop :=
  result.isSome → Same live live'

theorem Same.refl : Same live live :=
  fun _ _ => .rfl

theorem mem_needed {thing : Pointer → Thing} {pointer : Option Pointer} {x : Thing}
    (hx : x ≠ .exhausted) : x ∈ needed thing pointer ↔ x ∈ owned thing pointer := by
  cases pointer <;> simp [needed, owned, hx]

theorem mem_needed_of_owned {thing : Pointer → Thing} {pointer : Option Pointer} {x : Thing}
    (hx : x ∈ owned thing pointer) : x ∈ needed thing pointer := by
  cases pointer
  case none   => simp [owned] at hx
  case some p => exact hx

theorem keeps_decodeOpened (hf : .format context ∈ live) (hc : .codec codecContext ∈ live) :
    MediaKeeps (Restores {x | x ∈ live ∧ x ∉ [.codec codecContext]})
      (decodeOpened fuel context codecContext streamIndex image label) live := by
  have hproper {x : Option Pointer} {live : Set Thing} :
      (mediaDeal ⟨.avPacketAlloc, x⟩).Proper live ∧ (mediaDeal ⟨.avFrameAlloc, x⟩).Proper live := by
    simp [mediaDeal, Deal.Proper, Deal.none]
  refine keeps_call fun packet hp => ⟨hproper.left, ?_⟩
  refine keeps_call fun frame hfr => ⟨hproper.right, ?_⟩
  generalize hl : (mediaDeal ⟨.avFrameAlloc, frame⟩).after _ = live₂
  have hmem : ∀ x, x ∈ live₂ ↔ x ∈ live ∨ x ∈ needed .packet packet ∨ x ∈ needed .frame frame := by
    intro x
    simp [← hl, mediaDeal, Deal.after, Deal.none, or_assoc]
  have hready : Ready live₂ codecContext packet frame :=
    ⟨(hmem _).mpr (.inl hc), fun x m => (hmem x).mpr (.inr (.inl m)),
      fun x m => (hmem x).mpr (.inr (.inr m))⟩
  have hnew : ∀ x, x ∈ owned .packet packet ∨ x ∈ owned .contents packet → x ∉ live :=
    fun x m => hp x (List.mem_append.mpr m)
  have hframe : ∀ x ∈ owned .frame frame, x ∉ live := fun x m h =>
    hfr x m (by simp [mediaDeal, Deal.after, Deal.none, h])
  have hempty : ∀ x ∈ owned .contents packet, x ∉ live₂ := by
    intro x m hx
    have hl := hnew x (.inr m)
    obtain ⟨p, _, rfl⟩ := List.mem_map.mp m
    have hx := ((hmem _).mp hx).resolve_left hl
    simp [mem_needed, owned] at hx
  refine keeps_bind (keeps_decodePackets hready ((hmem _).mpr (.inl hf)) hempty) ?_
  intro _ result live' hr
  rw [hr]
  obtain _ | ⟨decoded, image⟩ := result
  case none => exact keeps_ret (by simp [Restores])
  case some =>
    refine keeps_free (fun _ => rfl) (fun x m => hready.frame x (mem_needed_of_owned m)) fun _ => ?_
    have hother : ∀ x ∈ owned .packet packet, x ∉ owned .frame frame := by
      intro x m
      obtain ⟨p, _, rfl⟩ := List.mem_map.mp m
      simp [owned]
    refine keeps_call fun _ _ => ⟨⟨fun x m => ⟨hready.packet x (mem_needed_of_owned m), hother x m⟩,
      by simp [mediaDeal, Deal.free, Deal.none]⟩, ?_⟩
    generalize hl' : (mediaDeal ⟨.avPacketFree packet, _⟩).after _ = live₃
    have hmem' : ∀ x, x ∈ live₃ ↔
        (x ∈ live₂ ∧ x ∉ owned .frame frame) ∧ x ∉ owned .packet packet ∧
          x ∉ owned .contents packet := by
      intro x
      simp [← hl', mediaDeal, Deal.after, Deal.free, Deal.none]
    refine keeps_free (fun _ => rfl) ?_ fun _ => keeps_ret fun _ x hx => ?_
    · simp [hmem', hready.codec, owned]
    · show x ∈ live₃ ∧ x ∉ [.codec codecContext] ↔ x ∈ live ∧ x ∉ [.codec codecContext]
      rw [hmem', hmem, mem_needed hx, mem_needed hx]
      have := hnew x
      have := hframe x
      tauto

theorem Restores.free {things : List Thing} {result : Option (Bool × RgbaImage)}
    (hn : ∀ x ∈ things, x ∉ live) : Restores live result
      {x | x ∈ {x | x ∈ live ∨ x ∈ things} ∧ x ∉ things} :=
  fun _ => (Deal.diff_of_fresh hn).symm ▸ Same.refl

theorem keeps_decodeFirstFrame (hf : .format context ∈ live) :
    MediaKeeps (Restores live) (decodeFirstFrame fuel context image label) live := by
  refine keeps_use (fun _ => rfl) (by simpa) fun streamIndex => ?_
  split
  case isTrue => exact keeps_ret fun _ => .refl
  case isFalse =>
    refine keeps_use (fun _ => rfl) (by simpa) fun codec => ?_
    cases codec
    case none => exact keeps_ret fun _ => .refl
    case some codec =>
      refine keeps_make (fun _ => rfl) (by simp) fun codecContext hn => ?_
      cases codecContext
      case none => exact keeps_ret fun _ => by simpa [owned] using Same.refl
      case some codecContext =>
        have hc : ∀ x ∈ [Thing.codec codecContext],
            x ∈ {x | x ∈ live ∨ x ∈ [.codec codecContext]} := fun x m => .inr m
        have hfree : MediaKeeps (Restores live)
            (call (.avcodecFreeContext codecContext) >>= fun _ => ret (some (false, image)))
            {x | x ∈ live ∨ x ∈ [.codec codecContext]} :=
          keeps_free (fun _ => rfl) hc fun _ => keeps_ret (.free hn)
        refine keeps_use (fun _ => rfl) (by simp [owned, hf]) fun code => ?_
        split
        case isTrue => exact hfree
        case isFalse =>
          refine keeps_use (fun _ => rfl) hc fun code => ?_
          split
          case isTrue => exact hfree
          case isFalse =>
            refine (keeps_decodeOpened (.inl hf) (hc _ (by simp))).mono ?_
            intro _ result live' hr hs
            exact Deal.diff_of_fresh hn ▸ hr hs

theorem keeps_decodeFromFormatContext (hf : .format context ∈ live) :
    MediaKeeps (Restores live) (decodeFromFormatContext fuel context image label) live := by
  refine keeps_use (fun _ => rfl) (by simpa) fun code => ?_
  split
  case isTrue  => exact keeps_ret fun _ => .refl
  case isFalse => exact keeps_decodeFirstFrame hf

end Contexts

section Images

theorem keeps_fillMetadata :
    MediaKeeps (fun _ live' => live' = live) (fillMetadata path image) live := by
  refine keeps_ask (fun _ => rfl) fun found => ?_
  split
  case isFalse => exact keeps_ret rfl
  case isTrue =>
    refine keeps_ask (fun _ => rfl) fun size => keeps_ask (fun _ => rfl) fun modified => ?_
    cases modified
    case none   => exact keeps_ret rfl
    case some _ =>
      exact keeps_ask (fun _ => rfl) fun _ => keeps_ask (fun _ => rfl) fun _ => keeps_ret rfl

-- With an open input that is closed behind.
theorem keeps_closed (hn : ∀ x ∈ [Thing.format context], x ∉ live) :
    MediaKeeps (Restores live)
      (decodeFromFormatContext fuel context image label >>= fun
        | none        => return none
        | some result => do
          call (.avformatCloseInput context)
          return some result)
      {x | x ∈ live ∨ x ∈ [.format context]} := by
  refine keeps_bind (keeps_decodeFromFormatContext (.inr (by simp))) fun _ result live' hr => ?_
  cases result
  case none => exact keeps_ret (by simp [Restores])
  case some result =>
    have hs := hr rfl
    have hc : .format context ∈ live' := (hs _ (by simp)).mpr (.inr (by simp))
    refine keeps_free (fun _ => rfl) (by simpa) fun _ => keeps_ret fun _ x hx => ?_
    rw [← Deal.diff_of_fresh hn]
    exact and_congr_left fun _ => hs x hx

-- A context that is given to be opened goes or stays with the call.
theorem keeps_open {α : Type} {Q : List (Event MediaRes) → α → Set Thing → Prop}
    {f : Option Pointer → MediaM α} {given : Option Pointer} {url : Bytes}
    (hn : ∀ x ∈ owned .format given, x ∉ live)
    (hf : ∀ r, (∀ x ∈ owned .format r, x ∉ live) →
      Keeps mediaDeal (fun t => Q (⟨.avformatOpenInput given url, r⟩ :: t)) (f r)
        {x | x ∈ live ∨ x ∈ owned .format r}) :
    Keeps mediaDeal Q (call (.avformatOpenInput given url) >>= f)
      {x | x ∈ live ∨ x ∈ owned .format given} := by
  refine keeps_call fun r hr => ⟨⟨fun x m => .inr m, by simp [mediaDeal, Deal.free, Deal.none]⟩, ?_⟩
  have hlive : (mediaDeal ⟨.avformatOpenInput given url, r⟩).after
      {x | x ∈ live ∨ x ∈ owned .format given} = {x | x ∈ live ∨ x ∈ owned .format r} := by
    have hd := Deal.diff_of_fresh hn
    ext x
    have hx : x ∈ live ↔ (x ∈ live ∨ x ∈ owned .format given) ∧ x ∉ owned .format given :=
      Set.ext_iff.mp hd.symm x
    simp [mediaDeal, Deal.after, Deal.free, Deal.none, ← hx]
  rw [hlive]
  refine hf r fun x m hx => ?_
  by_cases hg : x ∈ owned .format given
  case pos => exact hn x hg hx
  case neg => exact hr x (by simp [mediaDeal, m, hg]) (.inl hx)

theorem union_nil : {x | x ∈ live ∨ x ∈ ([] : List Thing)} = live := by
  ext x
  simp

theorem keeps_decodeImageFromFile :
    MediaKeeps (Restores live) (decodeImageFromFile fuel path) live := by
  refine keeps_bind keeps_fillMetadata fun _ result live' hl => ?_
  obtain ⟨filled, image⟩ := result
  subst hl
  cases filled
  case false => exact keeps_ret fun _ => .refl
  case true =>
    have hn : ∀ x ∈ owned .format none, x ∉ live' := by simp [owned]
    rw [← @union_nil live']
    refine keeps_open hn fun context hn => ?_
    cases context
    case none         => exact keeps_ret fun _ => .refl
    case some context => exact union_nil ▸ keeps_closed hn

theorem keeps_probeStream {info : MediaProbeInfo} (hf : .format context ∈ live) :
    MediaKeeps (fun _ live' => live' = live) (probeStream context info) live := by
  refine keeps_use (fun _ => rfl) (by simpa) fun streamIndex => ?_
  split
  case isTrue => exact keeps_ret rfl
  case isFalse =>
    refine keeps_use (fun _ => rfl) (by simpa) fun stream => ?_
    dsimp only
    split
    case isFalse => exact keeps_ret rfl
    case isTrue =>
      refine keeps_use (fun _ => rfl) (by simpa) fun codec => ?_
      cases codec
      case none   => exact keeps_ret rfl
      case some _ => exact keeps_ask (fun _ => rfl) fun _ => keeps_ret rfl

theorem keeps_probeMediaFile :
    MediaKeeps (fun _ live' => live' = live) (probeMediaFile path) live := by
  have hn : ∀ x ∈ owned .format none, x ∉ live := by simp [owned]
  rw [← @union_nil live]
  refine keeps_open hn fun context hn => ?_
  cases context
  case none => exact keeps_ret rfl
  case some context =>
    have hf : ∀ x ∈ [Thing.format context], x ∈ {x | x ∈ live ∨ x ∈ [.format context]} :=
      fun x m => .inr m
    rw [union_nil]
    refine keeps_use (fun _ => rfl) hf fun code => ?_
    split
    case isTrue =>
      exact keeps_free (fun _ => rfl) hf fun _ => keeps_ret (Deal.diff_of_fresh hn)
    case isFalse =>
      refine keeps_use (fun _ => rfl) hf fun name => ?_
      refine keeps_bind (keeps_probeStream (hf _ (by simp))) fun _ info live' hl => ?_
      subst hl
      refine keeps_use (fun _ => rfl) hf fun duration => ?_
      exact keeps_free (fun _ => rfl) hf fun _ => keeps_ret (Deal.diff_of_fresh hn)

section Memory

-- How a run begins that gets an I/O context.
def begun (p q : Pointer) (r : Option Pointer) : List (Event MediaRes) :=
  [⟨.avMalloc avioBufferSize, some p⟩, ⟨.avioAllocContext p avioBufferSize, some q⟩,
    ⟨.avformatAllocContext, r⟩]

-- Nothing gives back the buffer of an I/O context, and nothing but a failure the context itself.
structure Leaks (t : List (Event MediaRes)) (live' : Set Thing) : Prop where
  input : ∀ p q context, begun p q (some context) <+: t →
    Same {x | x ∈ [.buffer p, .avio q]} live'
  buffer : ∀ p q, begun p q none <+: t → Same {x | x ∈ [.buffer p]} live'
  nothing : (∀ p q r, ¬begun p q r <+: t) → Same ∅ live'

theorem begun_prefix_iff {p q p' q' : Pointer} {r r' : Option Pointer} {u : List (Event MediaRes)} :
    begun p q r <+: begun p' q' r' ++ u ↔ p = p' ∧ q = q' ∧ r = r' := by
  simp only [begun, List.cons_append, List.cons_prefix_cons]
  constructor
  case mp =>
    rintro ⟨h₁, h₂, h₃, _⟩
    cases h₁
    cases h₂
    cases h₃
    exact ⟨rfl, rfl, rfl⟩
  case mpr =>
    rintro ⟨rfl, rfl, rfl⟩
    exact ⟨rfl, rfl, rfl, List.nil_prefix⟩

theorem Leaks.of_nothing {t : List (Event MediaRes)} (h : ∀ p q r, ¬begun p q r <+: t) :
    Leaks t ∅ where
  input p q _ hb := absurd hb (h p q _)
  buffer p q hb  := absurd hb (h p q _)
  nothing _      := .refl

theorem Leaks.of_buffer {p q : Pointer} {u : List (Event MediaRes)}
    (h : Same {x | x ∈ [.buffer p]} live') : Leaks (begun p q none ++ u) live' where
  input _ _ _ hb := absurd (begun_prefix_iff.mp hb).right.right (Option.some_ne_none _)
  buffer _ _ hb  := (begun_prefix_iff.mp hb).left ▸ h
  nothing hn     := absurd (begun_prefix_iff.mpr ⟨rfl, rfl, rfl⟩) (hn p q none)

theorem Leaks.of_input {p q context : Pointer} {u : List (Event MediaRes)}
    (h : Same {x | x ∈ [.buffer p, .avio q]} live') :
    Leaks (begun p q (some context) ++ u) live' where
  input _ _ _ hb := by
    obtain ⟨rfl, rfl, _⟩ := begun_prefix_iff.mp hb
    exact h
  buffer _ _ hb  := absurd (begun_prefix_iff.mp hb).right.right (Option.some_ne_none _).symm
  nothing hn     := absurd (begun_prefix_iff.mpr ⟨rfl, rfl, rfl⟩) (hn p q (some context))

theorem keeps_decodeImageFromMemory {data : Option Buffer} :
    Keeps mediaDeal (fun t result live' => result.isSome → Leaks t live')
      (decodeImageFromMemory fuel data label) ∅ := by
  rw [decodeImageFromMemory]
  split
  case isTrue => exact keeps_ret fun _ => .of_nothing (by simp [begun])
  case isFalse =>
    refine keeps_make (fun _ => rfl) (by simp) fun buffer _ => ?_
    cases buffer
    case none => exact keeps_ret fun _ => union_nil ▸ .of_nothing (by simp [begun])
    case some p _ =>
      refine keeps_make (fun _ => rfl) (fun x m => .inr m) fun avio _ => ?_
      cases avio
      case none =>
        refine keeps_free (fun _ => rfl) (fun x m => .inl (.inr m)) fun _ => keeps_ret fun _ => ?_
        convert Leaks.of_nothing _ using 1
        · ext x
          simp [owned]
        · simp [begun]
      case some q _ =>
        refine keeps_make (fun _ => rfl) (by simp) fun context hn => ?_
        cases context
        case none =>
          refine keeps_free (fun _ => rfl) (fun x m => .inl (.inr m)) fun _ => keeps_ret fun _ => ?_
          refine Leaks.of_buffer fun x _ => ?_
          show ((((x ∈ ∅ ∨ x ∈ [.buffer p]) ∨ x ∈ [.avio q]) ∨ x ∈ []) ∧ x ∉ [.avio q]) ↔
            x ∈ [.buffer p]
          grind
        case some context hn =>
          refine keeps_use (fun _ => rfl) (by simp [owned]) fun _ => ?_
          refine keeps_open hn fun opened hn => ?_
          cases opened
          case none =>
            refine keeps_free (fun _ => rfl) (by simp [owned]) fun _ => keeps_ret fun _ => ?_
            refine Leaks.of_input fun x _ => ?_
            simp [owned]
          case some context' =>
            refine (keeps_closed hn).mono fun u result live' h hs => ?_
            refine Leaks.of_input fun x hx => (h hs x hx).trans ?_
            simp [owned]

end Memory
end Images

section Results

-- An image with all its pixels, that tells the same of itself twice.
structure RgbaImage.Whole (image : RgbaImage) (label : Bytes) : Prop where
  width : 0 < image.width ∧ image.metadata.width = image.width
  height : 0 < image.height ∧ image.metadata.height = image.height
  pixels : image.pixels.length = (image.width * image.height).toNat
  channels : image.metadata.channelCount = 4
  source : image.metadata.sourcePath = label

theorem RgbaImage.Whole.valid (h : image.Whole label) : image.valid := by
  have hp : 0 < image.pixels.length := by
    rw [h.pixels]
    have := Int.mul_pos h.width.left h.height.left
    omega
  simpa [RgbaImage.valid, h.width.left, h.height.left] using List.ne_nil_of_length_pos hp

-- An image has been decoded, or it has none of the pixels that it had none of before.
def Decoded (label : Bytes) (result : Bool × RgbaImage) : Prop :=
  if result.1 then result.2.Whole label else ¬result.2.valid

abbrev MediaReturns {α : Type} (V : α → Prop) (p : MediaM α) : Prop :=
  p.Returns (fun _ => True) V

-- The label comes last.
def DecodedAs (result : Bool × RgbaImage) : Prop :=
  Decoded result.2.metadata.sourcePath result

theorem mem_some_of {α : Type} {V : α → Prop} {a : α} (h : V a) : ∀ b ∈ some a, V b := by
  rintro _ ⟨rfl⟩
  exact h

theorem returns_call {α : Type} {V : α → Prop} {o : MediaCall} {f : MediaRes o → MediaM α}
    (h : ∀ r, MediaReturns V (f r)) : MediaReturns V (call o >>= f) :=
  fun r _ => h r

theorem returns_frameToRgba {frame : Frame} (h : ¬image.valid) :
    MediaReturns DecodedAs (frameToRgba framePointer frame image) := by
  cases framePointer
  case none => exact h
  case some p =>
    rw [frameToRgba]
    split
    case isTrue => exact h
    case isFalse hd =>
      intro scaler _
      cases scaler
      case none => exact h
      case some scaler =>
        intro colors _ _ _
        have ⟨hw, hh⟩ : 0 < frame.width ∧ 0 < frame.height := by omega
        exact ⟨⟨hw, rfl⟩, ⟨hh, rfl⟩, by simp, rfl, rfl⟩

theorem returns_decodePacket (h : ¬image.valid) :
    MediaReturns DecodedAs (decodePacket codecContext packet framePointer image) := by
  refine returns_call fun code => ?_
  split
  case isTrue => exact h
  case isFalse =>
    refine returns_call fun received => ?_
    split
    case isTrue  => exact h
    case isFalse => exact returns_frameToRgba h

theorem returns_decodePackets (h : ¬image.valid) :
    MediaReturns (∀ result ∈ ·, DecodedAs result)
      (decodePackets context codecContext packet framePointer streamIndex image fuel) := by
  induction fuel generalizing image
  case zero => simp [decodePackets]
  case succ fuel hi =>
    refine returns_call fun read => ?_
    split
    case isTrue => exact mem_some_of h
    case isFalse =>
      split
      case isTrue => exact returns_call fun _ => hi h
      case isFalse =>
        refine returns_bind (returns_decodePacket h) fun result hd => returns_call fun _ => ?_
        obtain ⟨decoded, image⟩ := result
        cases decoded
        case false => exact hi hd
        case true  => exact mem_some_of hd

theorem DecodedAs.labelled {result : Bool × RgbaImage} (h : DecodedAs result) :
    Decoded label (result.1, { result.2 with metadata.sourcePath := label }) := by
  obtain ⟨decoded, image⟩ := result
  cases decoded
  case false => exact h
  case true =>
    have h : image.Whole _ := h
    exact ⟨h.width, h.height, h.pixels, h.channels, rfl⟩

theorem returns_decodeOpened (h : ¬image.valid) :
    MediaReturns (∀ result ∈ ·, Decoded label result)
      (decodeOpened fuel context codecContext streamIndex image label) := by
  refine returns_call fun packet => returns_call fun frame => ?_
  refine returns_bind (returns_decodePackets h) fun result hr => ?_
  cases result
  case none => simp
  case some result =>
    refine returns_call fun _ => returns_call fun _ => returns_call fun _ => ?_
    exact mem_some_of (hr result rfl).labelled

theorem returns_decodeFromFormatContext (h : ¬image.valid) :
    MediaReturns (∀ result ∈ ·, Decoded label result)
      (decodeFromFormatContext fuel context image label) := by
  have hfailed : ∀ result ∈ some (false, image), Decoded label result := mem_some_of h
  refine returns_call fun code => ?_
  split
  case isTrue => exact hfailed
  case isFalse =>
    refine returns_call fun streamIndex => ?_
    split
    case isTrue => exact hfailed
    case isFalse =>
      refine returns_call fun codec => ?_
      cases codec
      case none => exact hfailed
      case some codec =>
        refine returns_call fun codecContext => ?_
        cases codecContext
        case none => exact hfailed
        case some codecContext =>
          refine returns_call fun code => ?_
          split
          case isTrue => exact returns_call fun _ => hfailed
          case isFalse =>
            refine returns_call fun code => ?_
            split
            case isTrue  => exact returns_call fun _ => hfailed
            case isFalse => exact returns_decodeOpened h

theorem returns_fillMetadata :
    MediaReturns (fun result => result.2.pixels = image.pixels) (fillMetadata path image) := by
  refine returns_call fun found => ?_
  split
  case isFalse => rfl
  case isTrue =>
    refine returns_call fun size => returns_call fun modified => ?_
    cases modified
    case none   => rfl
    case some _ => exact returns_call fun _ => returns_call fun _ => rfl

theorem returns_decodeImageFromFile :
    MediaReturns (∀ result ∈ ·, Decoded path result) (decodeImageFromFile fuel path) := by
  refine returns_bind returns_fillMetadata fun result hp => ?_
  obtain ⟨filled, image⟩ := result
  have hv : ¬image.valid := by
    have hp : image.pixels = [] := hp
    simp [RgbaImage.valid, hp]
  cases filled
  case false => exact mem_some_of hv
  case true =>
    refine returns_call fun context => ?_
    cases context
    case none => exact mem_some_of (by simp [Decoded, RgbaImage.valid, RgbaImage.empty])
    case some context =>
      refine returns_bind (returns_decodeFromFormatContext hv) fun result hr => ?_
      cases result
      case none   => simp
      case some _ => exact returns_call fun _ => hr

theorem returns_decodeImageFromMemory {data : Option Buffer} :
    MediaReturns (∀ result ∈ ·, Decoded label result) (decodeImageFromMemory fuel data label) := by
  have hv : ¬RgbaImage.empty.valid := by decide
  have hfailed : ∀ result ∈ some (false, RgbaImage.empty), Decoded label result := mem_some_of hv
  rw [decodeImageFromMemory]
  split
  case isTrue => exact hfailed
  case isFalse =>
    refine returns_call fun buffer => ?_
    cases buffer
    case none => exact hfailed
    case some buffer =>
      refine returns_call fun avio => ?_
      cases avio
      case none => exact returns_call fun _ => hfailed
      case some avio =>
        refine returns_call fun context => ?_
        cases context
        case none => exact returns_call fun _ => hfailed
        case some context =>
          refine returns_call fun _ => returns_call fun opened => ?_
          cases opened
          case none => exact returns_call fun _ => hfailed
          case some context =>
            refine returns_bind (returns_decodeFromFormatContext hv) fun result hr => ?_
            cases result
            case none   => simp
            case some _ => exact returns_call fun _ => hr

end Results

section Fuel

-- The packets that have been read.
def reads : Event MediaRes → List Unit
  | ⟨.avReadFrame _ _, r⟩ => if r.code < 0 then [] else [()]
  | _                     => []

-- Without a result, as many packets have been read as there was fuel.
abbrev Lasts {α : Type} (fuel : Nat) (p : MediaM (Option α)) : Prop :=
  p.Collects reads fun packets result => result = none → fuel ≤ packets.length

variable {α β : Type}

theorem lasts_call {o : MediaCall} {f : MediaRes o → MediaM (Option α)}
    (h : ∀ r, Lasts fuel (f r)) : Lasts fuel (call o >>= f) := by
  refine fun r => (h r).mono fun packets result hl hn => ?_
  have := hl hn
  simp only [List.length_append]
  omega

theorem lasts_skip {p : MediaM β} {f : β → MediaM (Option α)} (h : ∀ b, Lasts fuel (f b)) :
    Lasts fuel (p >>= f) := by
  have hp : p.Collects reads fun _ _ => True := collects_of_forall fun _ _ => trivial
  refine collects_bind hp fun packets b _ => (h b).mono fun packets' result hl hn => ?_
  have := hl hn
  simp only [List.length_append]
  omega

theorem lasts_bind {p : MediaM (Option β)} {f : Option β → MediaM (Option α)} (hp : Lasts fuel p)
    (h : ∀ b, Lasts fuel (f (some b))) : Lasts fuel (p >>= f) := by
  refine collects_bind hp fun packets b hl => ?_
  cases b
  case none =>
    refine collects_of_forall fun packets' result _ => ?_
    have := hl rfl
    simp only [List.length_append]
    omega
  case some b =>
    refine (h b).mono fun packets' result hl hn => ?_
    have := hl hn
    simp only [List.length_append]
    omega

theorem lasts_some {a : α} : Lasts fuel (ret (some a) : MediaM (Option α)) :=
  fun h => absurd h (Option.some_ne_none a)

theorem lasts_read {f : ReadFrame → MediaM (Option α)}
    (he : ∀ r, r.code < 0 → Lasts (fuel + 1) (f r)) (h : ∀ r, ¬r.code < 0 → Lasts fuel (f r)) :
    Lasts (fuel + 1) (call (.avReadFrame context packet) >>= f) := by
  intro r
  by_cases hr : r.code < 0
  case pos =>
    exact (he r hr).mono fun packets result hl hn => by simpa [reads, hr] using hl hn
  case neg =>
    refine (h r hr).mono fun packets result hl hn => ?_
    have := hl hn
    simp only [reads, hr, ↓reduceIte, List.singleton_append, List.length_cons]
    omega

theorem lasts_decodePackets : Lasts fuel
    (decodePackets context codecContext packet framePointer streamIndex image fuel) := by
  induction fuel generalizing image
  case zero => exact fun _ => Nat.zero_le _
  case succ fuel hi =>
    refine lasts_read (fun read hr => ?_) (fun read hr => ?_)
    · rw [if_pos hr]
      exact lasts_some
    · rw [if_neg hr]
      split
      case isTrue => exact lasts_call fun _ => hi
      case isFalse =>
        refine lasts_skip fun result => lasts_call fun _ => ?_
        obtain ⟨decoded, image⟩ := result
        cases decoded
        case false => exact hi
        case true  => exact lasts_some

theorem lasts_decodeFromFormatContext :
    Lasts fuel (decodeFromFormatContext fuel context image label) := by
  refine lasts_call fun code => ?_
  split
  case isTrue => exact lasts_some
  case isFalse =>
    refine lasts_call fun streamIndex => ?_
    split
    case isTrue => exact lasts_some
    case isFalse =>
      refine lasts_call fun codec => ?_
      cases codec
      case none => exact lasts_some
      case some codec =>
        refine lasts_call fun codecContext => ?_
        cases codecContext
        case none => exact lasts_some
        case some codecContext =>
          refine lasts_call fun code => ?_
          split
          case isTrue => exact lasts_call fun _ => lasts_some
          case isFalse =>
            refine lasts_call fun code => ?_
            split
            case isTrue => exact lasts_call fun _ => lasts_some
            case isFalse =>
              refine lasts_call fun packet => lasts_call fun frame => ?_
              refine lasts_bind lasts_decodePackets fun _ => ?_
              exact lasts_call fun _ => lasts_call fun _ => lasts_call fun _ => lasts_some

theorem lasts_decodeImageFromFile : Lasts fuel (decodeImageFromFile fuel path) := by
  refine lasts_skip fun result => ?_
  obtain ⟨filled, image⟩ := result
  cases filled
  case false => exact lasts_some
  case true =>
    refine lasts_call fun context => ?_
    cases context
    case none => exact lasts_some
    case some context =>
      exact lasts_bind lasts_decodeFromFormatContext fun _ => lasts_call fun _ => lasts_some

theorem lasts_decodeImageFromMemory {data : Option Buffer} :
    Lasts fuel (decodeImageFromMemory fuel data label) := by
  rw [decodeImageFromMemory]
  split
  case isTrue => exact lasts_some
  case isFalse =>
    refine lasts_call fun buffer => ?_
    cases buffer
    case none => exact lasts_some
    case some buffer =>
      refine lasts_call fun avio => ?_
      cases avio
      case none => exact lasts_call fun _ => lasts_some
      case some avio =>
        refine lasts_call fun context => ?_
        cases context
        case none => exact lasts_call fun _ => lasts_some
        case some context =>
          refine lasts_call fun _ => lasts_call fun opened => ?_
          cases opened
          case none => exact lasts_call fun _ => lasts_some
          case some context =>
            exact lasts_bind lasts_decodeFromFormatContext fun _ => lasts_call fun _ => lasts_some

end Fuel

variable {t : List (Event MediaRes)}

theorem valid_of_decoded {decoded : Bool} (h : Decoded label (decoded, image)) :
    (decoded ↔ image.valid) ∧ (decoded → image.Whole label) := by
  cases decoded
  case false =>
    have hv : ¬image.valid := h
    exact ⟨by simpa using hv, by simp⟩
  case true =>
    have hw : image.Whole label := h
    exact ⟨by simpa using hw.valid, fun _ => hw⟩

-- Whatever the file system and FFmpeg answer, a file is decoded and probed with no pointer used
-- that FFmpeg has taken back, nothing lost, and null handed over only where there was no memory. At
-- the end nothing is left, and there is a whole image if and only if the call says so. A call that
-- goes on has read as many packets as one likes.
theorem files_released (path : Bytes) :
    (∀ fuel t result, Emits (decodeImageFromFile fuel path) t (ret result) →
      Possible mediaDeal ∅ t → InOrder mediaDeal ∅ t ∧
        (∀ decoded image, result = some (decoded, image) →
          Same ∅ (liveAfter mediaDeal ∅ t) ∧ (decoded ↔ image.valid) ∧
            (decoded → image.Whole path)) ∧
        (result = none → fuel ≤ (t.flatMap reads).length)) ∧
    ∀ t result, Emits (probeMediaFile path) t (ret result) → Possible mediaDeal ∅ t →
      InOrder mediaDeal ∅ t ∧ liveAfter mediaDeal ∅ t = ∅ := by
  constructor
  case left =>
    intro fuel t result he hp
    have ⟨ho, hr⟩ := keeps_decodeImageFromFile.done he hp
    refine ⟨ho, ?_, he.collects lasts_decodeImageFromFile⟩
    rintro decoded image rfl
    exact ⟨hr rfl, valid_of_decoded (he.returns returns_decodeImageFromFile (fun _ _ => trivial) _ rfl)⟩
  case right => exact fun t result he hp => keeps_probeMediaFile.done he hp

-- An image in memory is decoded in order as well, but what the input was made of is never freed:
-- its buffer is left as soon as there is an I/O context, and the context too unless there was no
-- memory for the input itself.
theorem memory_leaks (fuel : Nat) (data : Option Buffer) (label : Bytes)
    (result : Option (Bool × RgbaImage))
    (he : Emits (decodeImageFromMemory fuel data label) t (ret result))
    (hp : Possible mediaDeal ∅ t) : InOrder mediaDeal ∅ t ∧
      (∀ decoded image, result = some (decoded, image) →
        Leaks t (liveAfter mediaDeal ∅ t) ∧ (decoded ↔ image.valid) ∧
          (decoded → image.Whole label)) ∧
      (result = none → fuel ≤ (t.flatMap reads).length) := by
  have ⟨ho, hr⟩ := keeps_decodeImageFromMemory.done he hp
  refine ⟨ho, ?_, he.collects lasts_decodeImageFromMemory⟩
  rintro decoded image rfl
  exact ⟨hr rfl, valid_of_decoded (he.returns returns_decodeImageFromMemory (fun _ _ => trivial) _ rfl)⟩

section Store

variable {files : Files} {store store' : MediaStore} {events : List StoreEvent} {time : Nat}
  {forceReload : Bool} {result : LoadResult}

-- The files are decoded by nothing else.
def DecodedBy (files : Files) : Prop :=
  ∀ time path image, files.decodeImageFromFile time path = some image →
    ∃ fuel t, Emits (decodeImageFromFile fuel path) t (ret (some (true, image)))

theorem DecodedBy.whole (h : DecodedBy files)
    (hd : files.decodeImageFromFile time path = some image) : image.Whole path := by
  obtain ⟨fuel, t, he⟩ := h time path image hd
  exact he.returns returns_decodeImageFromFile (fun _ _ => trivial) _ rfl

-- In any state of the cache, whatever is loaded is a whole image of its file, out of the cache as
-- well, and a load returns `true` if and only if it has one.
theorem loaded_whole (hf : DecodedBy files) (r : Trace.Run (Step files) .empty events store)
    (h : store.loadFile files time path forceReload = some (result, store')) :
    (result.returned ↔ result ≠ .failed) ∧
      ∀ image, result = .hit image ∨ result = .decoded image → image.Whole path := by
  have hr := Refines.of_run r
  cases MediaStore.loaded_of_loadFile hr.paired h
  case failed => simp [LoadResult.returned]
  case hit identity image hl hi =>
    obtain ⟨_, before, _, _, hd, _⟩ := hr.coherent.hits _ _ _ _ _ h
    have hw := hf.whole hd
    refine ⟨by simp [LoadResult.returned, hw.valid], ?_⟩
    rintro image' (he | he)
    case inl => exact LoadResult.hit.inj he ▸ hw
    case inr => contradiction
  case decoded identity image hi hd hk =>
    refine ⟨by simp [LoadResult.returned], ?_⟩
    rintro image' (he | he)
    case inl => contradiction
    case inr => exact LoadResult.decoded.inj he ▸ hf.whole hd

end Store

section Pixel

-- A file of one pixel, whose color is the time.
def pixelCalls (time : Nat) : Handler MediaRes Unit := fun o _ =>
  (match o with
    | .pathExists _                     => true
    | .fileSize _                       => some 4
    | .lastWriteTime _                  => none
    | .fileClockNow                     => 0
    | .systemClockNow                   => 0
    | .avMalloc _                       => some 1
    | .avFree _                         => ()
    | .avioAllocContext _ _             => some 2
    | .avioContextFree _                => ()
    | .avformatAllocContext             => some 3
    | .setPb _ _                        => ()
    | .avformatOpenInput _ _            => some 3
    | .avformatFreeContext _            => ()
    | .avformatCloseInput _             => ()
    | .avformatFindStreamInfo _         => 0
    | .formatName _                     => "png"
    | .formatDuration _                 => 0
    | .streamInfo _ _                   => ⟨1, 1, true, 0, 1, 25⟩
    | .codecName _                      => "png"
    | .avFindBestStream _               => 0
    | .avcodecFindDecoder _ _           => some 4
    | .avcodecAllocContext3 _           => some 5
    | .avcodecParametersToContext _ _ _ => 0
    | .avcodecOpen2 _ _                 => 0
    | .avcodecFreeContext _             => ()
    | .avPacketAlloc                    => some 6
    | .avFrameAlloc                     => some 7
    | .avReadFrame _ _                  => ⟨0, 0⟩
    | .avPacketUnref _                  => ()
    | .avcodecSendPacket _ _            => 0
    | .avcodecReceiveFrame _ _          => ⟨0, 1, 1, 2, by decide⟩
    | .swsGetContext _                  => some 8
    | .swsScale _ _                     => fun _ => ⟨time.toUInt8, 0, 0, 255⟩
    | .swsFreeContext _                 => ()
    | .avFrameFree _                    => ()
    | .avPacketFree _                   => (), ())

-- What a run calls from the open input on.
def pixelDecoded (time : Nat) : List (Event MediaRes) := [
  ⟨.avformatFindStreamInfo 3, 0⟩,
  ⟨.avFindBestStream 3, 0⟩,
  ⟨.avcodecFindDecoder 3 0, some 4⟩,
  ⟨.avcodecAllocContext3 4, some 5⟩,
  ⟨.avcodecParametersToContext 5 3 0, 0⟩,
  ⟨.avcodecOpen2 5 4, 0⟩,
  ⟨.avPacketAlloc, some 6⟩,
  ⟨.avFrameAlloc, some 7⟩,
  ⟨.avReadFrame 3 (some 6), ⟨0, 0⟩⟩,
  ⟨.avcodecSendPacket 5 (some 6), 0⟩,
  ⟨.avcodecReceiveFrame 5 (some 7), ⟨0, 1, 1, 2, by decide⟩⟩,
  ⟨.swsGetContext 7, some 8⟩,
  ⟨.swsScale 8 7, fun _ => ⟨time.toUInt8, 0, 0, 255⟩⟩,
  ⟨.swsFreeContext 8, ()⟩,
  ⟨.avPacketUnref (some 6), ()⟩,
  ⟨.avFrameFree (some 7), ()⟩,
  ⟨.avPacketFree (some 6), ()⟩,
  ⟨.avcodecFreeContext 5, ()⟩,
  ⟨.avformatCloseInput 3, ()⟩
]

theorem possible_pixelDecoded {time : Nat}
    (h : ∀ x ∈ live, x ∈ [.buffer 1, .avio 2, .format 3]) :
    Possible mediaDeal live (pixelDecoded time) := by
  have hn : ∀ x, x ∉ [.buffer 1, .avio 2, .format 3] → x ∉ live := fun x hx hl => hx (h x hl)
  simp [pixelDecoded, Possible, mediaDeal, Deal.Fresh, Deal.after, Deal.make, Deal.free, Deal.use,
    Deal.none, owned, needed, hn]

theorem files_released_pixel :
    let out := (decodeImageFromFile 1 "a.png").run (pixelCalls 0) ()
    InOrder mediaDeal ∅ out.trace ∧ Same ∅ (liveAfter mediaDeal ∅ out.trace) := by
  intro out
  have ht : out.trace = ⟨.pathExists "a.png", true⟩ :: ⟨.fileSize "a.png", some 4⟩ ::
      ⟨.lastWriteTime "a.png", none⟩ :: ⟨.avformatOpenInput none "a.png", some 3⟩ ::
      pixelDecoded 0 := rfl
  have hp : Possible mediaDeal ∅ out.trace := by
    rw [ht]
    refine ⟨by simp [mediaDeal, Deal.Fresh, Deal.none], ?_⟩
    refine ⟨by simp [mediaDeal, Deal.Fresh, Deal.none], ?_⟩
    refine ⟨by simp [mediaDeal, Deal.Fresh, Deal.none], ?_⟩
    refine ⟨by simp [mediaDeal, Deal.Fresh, Deal.after, Deal.none], possible_pixelDecoded ?_⟩
    simp [mediaDeal, Deal.after, Deal.free, Deal.none, owned]
  have hv : out.value = some (true, ⟨1, 1, [⟨0, 0, 0, 255⟩], ⟨"a.png", 4, 0, 1, 1, 4⟩⟩) := rfl
  have h := (files_released "a.png").left 1 out.trace out.value run_emits hp
  exact ⟨h.left, (h.right.left _ _ hv).left⟩

theorem memory_leaks_pixel :
    let out := (decodeImageFromMemory 1 (some ⟨[0], by decide⟩) "a").run (pixelCalls 0) ()
    Same {x | x ∈ [.buffer 1, .avio 2]} (liveAfter mediaDeal ∅ out.trace) := by
  intro out
  have ht : out.trace = begun 1 2 (some 3) ++ ⟨.setPb 3 2, ()⟩ ::
      ⟨.avformatOpenInput (some 3) [], some 3⟩ :: pixelDecoded 0 := rfl
  have hp : Possible mediaDeal ∅ out.trace := by
    rw [ht]
    refine ⟨by simp [mediaDeal, Deal.Fresh], ?_⟩
    refine ⟨by simp [mediaDeal, Deal.Fresh, Deal.after, Deal.make, owned], ?_⟩
    refine ⟨by simp [mediaDeal, Deal.Fresh, Deal.after, Deal.make, owned], ?_⟩
    refine ⟨by simp [mediaDeal, Deal.Fresh, Deal.use, Deal.none], ?_⟩
    refine ⟨by simp [mediaDeal, Deal.Fresh, owned], possible_pixelDecoded fun x hx => ?_⟩
    simp [mediaDeal, Deal.after, Deal.make, Deal.free, Deal.use, Deal.none, owned] at hx ⊢
    tauto
  have hv : out.value = some (true, ⟨1, 1, [⟨0, 0, 0, 255⟩], ⟨"a", 0, 0, 1, 1, 4⟩⟩) := rfl
  have h := memory_leaks 1 _ _ out.value run_emits hp
  exact (h.right.left _ _ hv).left.input 1 2 3 ⟨_, rfl⟩

theorem decodedBy_pixel : DecodedBy pixel := by
  rintro time path image hd
  obtain rfl := Option.some.inj hd
  exact ⟨1, _, @run_emits _ _ _ _ (pixelCalls time) (decodeImageFromFile 1 path) ()⟩

-- Its second load is a hit.
theorem loaded_whole_pixel : ∃ store store' image,
    MediaStore.loadFile store pixel 2 "a.png" false = some (.hit image, store') ∧
      image.Whole "a.png" := by
  let image : RgbaImage := ⟨1, 1, [⟨1, 0, 0, 255⟩], ⟨"a.png", 4, 0, 1, 1, 4⟩⟩
  have h : ∃ s₁ s₂, Step pixel .empty (.loadFile 1 "a.png" false (.decoded image)) s₁ ∧
      s₁.loadFile pixel 2 "a.png" false = some (.hit image, s₂) := ⟨_, _, rfl, rfl⟩
  obtain ⟨s₁, s₂, h₁, h₂⟩ := h
  exact ⟨s₁, s₂, _, h₂, (loaded_whole decodedBy_pixel (.snoc .nil h₁) h₂).right _ (.inl rfl)⟩

end Pixel
end Droidcli.Media
