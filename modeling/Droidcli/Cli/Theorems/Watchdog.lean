import Droidcli.Ai.Theorems.Members
import Droidcli.Cli.Watchdog

namespace Droidcli.Cli.Watchdog

open Bytes Json Net

variable {watchdog : Watchdog} {tick : WatchdogTick} {ticks : List WatchdogTick}

def Probes (watchdog : Watchdog) (tick : WatchdogTick) : Prop :=
  tick.enableAi ∧
    (tick.nowUtc ≤ 0 ∨ watchdog.lastCheckUtc = 0 ∨
      kWatchdogIntervalSeconds ≤ tick.nowUtc - watchdog.lastCheckUtc)

instance (watchdog : Watchdog) (tick : WatchdogTick) : Decidable (watchdog.Probes tick) :=
  inferInstanceAs (Decidable (_ ∧ _))

-- The ticks that ask the provider.
def probed : Watchdog → List WatchdogTick → List WatchdogTick
  | _, [] => []
  | watchdog, tick :: rest =>
    (if watchdog.Probes tick then [tick] else []) ++ probed (watchdog.tickWatchdog tick).1 rest

section Tick

theorem tick_idle (h : ¬watchdog.Probes tick) : watchdog.tickWatchdog tick = (watchdog, none) := by
  rw [tickWatchdog]
  split_ifs with he
  case pos => rfl
  case neg =>
    have he : tick.enableAi := by simpa using he
    simp only [Probes, he, true_and, not_or] at h
    obtain ⟨hn, hl, hi⟩ := h
    simp [shouldEmitPeriodicLog, hn, hl, hi]

theorem tick_probe (h : watchdog.Probes tick) :
    (watchdog.tickWatchdog tick).1.reachable = tick.reachable ∧
    (watchdog.tickWatchdog tick).1.lastCheckUtc =
      (if tick.nowUtc ≤ 0 then watchdog.lastCheckUtc else tick.nowUtc) ∧
    ((watchdog.tickWatchdog tick).2.toList.map (·.success)) =
      if tick.reachable ≠ watchdog.reachable then [tick.reachable] else [] := by
  obtain ⟨he, hn⟩ := h
  rw [tickWatchdog, if_neg (by simp [he])]
  by_cases h0 : tick.nowUtc ≤ 0
  case pos =>
    simp only [shouldEmitPeriodicLog, h0, if_true]
    split_ifs <;> simp_all
  case neg =>
    have hi := hn.resolve_left h0
    simp only [shouldEmitPeriodicLog, h0, hi, if_true, if_false]
    split_ifs <;> simp_all

end Tick

section Transitions

-- The entries tell every change of what the probes find, and nothing else.
theorem ticks_transitions : watchdog.reachable :: (watchdog.ticks ticks).2.map (·.success) =
    ((watchdog.probed ticks).map (·.reachable)).destutter' (· ≠ ·) watchdog.reachable := by
  induction ticks generalizing watchdog
  case nil => rfl
  case cons tick ticks hi =>
    rw [Watchdog.ticks, probed]
    dsimp only
    rw [List.map_append]
    by_cases h : watchdog.Probes tick
    case neg =>
      rw [tick_idle h, if_neg h]
      exact hi
    case pos =>
      obtain ⟨hr, _, hs⟩ := tick_probe h
      have hi : tick.reachable :: ((watchdog.tickWatchdog tick).1.ticks ticks).2.map (·.success) =
          (((watchdog.tickWatchdog tick).1.probed ticks).map (·.reachable)).destutter' (· ≠ ·)
            tick.reachable := hr ▸ hi
      rw [hs, if_pos h, List.singleton_append, List.map_cons, List.destutter'_cons]
      by_cases hne : tick.reachable = watchdog.reachable
      case pos => rw [if_neg (by simp [hne]), if_neg (by simp [hne]), List.nil_append, ← hne, hi]
      case neg =>
        rw [if_pos hne, if_pos (Ne.symm hne), List.singleton_append, hi]

theorem ticks_reachable : (watchdog.ticks ticks).1.reachable =
    ((watchdog.probed ticks).map (·.reachable)).getLastD watchdog.reachable := by
  induction ticks generalizing watchdog
  case nil => rfl
  case cons tick ticks hi =>
    rw [Watchdog.ticks, probed]
    dsimp only
    rw [hi]
    by_cases h : watchdog.Probes tick
    case neg => rw [tick_idle h, if_neg h, List.nil_append]
    case pos =>
      rw [(tick_probe h).left, if_pos h, List.singleton_append, List.map_cons, List.getLastD_cons]

-- What the host says of its provider is what the last probe has found, and the log has every
-- change of that.
theorem selfStatus_transitions (host : HostState) (appLog : List AppLogEntry)
    (ticks : List WatchdogTick) :
    let found := (initial.probed ticks).map (·.reachable)
    let status := buildSelfStatusJson (host.watched (initial.ticks ticks).1) appLog
    extractJsonBoolField status "ollama_reachable" = some (found.getLastD true) ∧
      true :: (initial.ticks ticks).2.map (·.success) = found.destutter' (· ≠ ·) true := by
  intro found status
  constructor
  case right => exact @ticks_transitions initial ticks
  case left =>
    have hr : (host.watched (initial.ticks ticks).1).ollamaReachable = found.getLastD true :=
      @ticks_reachable initial ticks
    have hp : ∀ text ∈ [jsonBoolField "ok" true, jsonBoolField "ai_enabled" host.config.enableAi],
        Passes (str "ollama_reachable") [] text := by
      intro text ht
      simp only [List.mem_cons, List.not_mem_nil, or_false] at ht
      rcases ht with rfl | rfl
      all_goals exact (Field.bool _).passes (by decide) (by decide) (by decide)
    rw [← hr]
    exact (@member_readFrom _ (.bool _) _ _) hp trivial

end Transitions

section Freshness

variable {u v : List WatchdogTick}

theorem ticks_append : (watchdog.ticks (u ++ v)).1 = ((watchdog.ticks u).1.ticks v).1 := by
  induction u generalizing watchdog
  case nil => rfl
  case cons tick u hi =>
    rw [List.cons_append, Watchdog.ticks, Watchdog.ticks]
    exact hi

theorem probed_append : watchdog.probed (u ++ v) =
    watchdog.probed u ++ (watchdog.ticks u).1.probed v := by
  induction u generalizing watchdog
  case nil => rfl
  case cons tick u hi =>
    rw [List.cons_append, probed, probed, hi, List.append_assoc, Watchdog.ticks]

def Later (a b : Int) : Prop :=
  a + kWatchdogIntervalSeconds ≤ b

-- While the clock runs, the last check is that of the last probe.
theorem ticks_lastCheckUtc (hc : ∀ tick ∈ u, 0 < tick.nowUtc) :
    (watchdog.ticks u).1.lastCheckUtc =
      ((watchdog.probed u).map (·.nowUtc)).getLastD watchdog.lastCheckUtc := by
  induction u generalizing watchdog
  case nil => rfl
  case cons tick u hi =>
    rw [Watchdog.ticks, probed]
    dsimp only
    rw [hi fun tick hm => hc tick (List.mem_cons_of_mem _ hm)]
    by_cases h : watchdog.Probes tick
    case neg => rw [tick_idle h, if_neg h, List.nil_append]
    case pos =>
      have hn : ¬tick.nowUtc ≤ 0 := not_le.mpr (hc tick List.mem_cons_self)
      rw [(tick_probe h).right.left, if_neg hn, if_pos h, List.singleton_append, List.map_cons,
        List.getLastD_cons]

theorem later_of_probes (h : watchdog.Probes tick) (hn : 0 < tick.nowUtc)
    (hl : watchdog.lastCheckUtc ≠ 0) : Later watchdog.lastCheckUtc tick.nowUtc := by
  obtain ⟨_, h0 | h0 | hi⟩ := h
  case inl     => omega
  case inr.inl => contradiction
  case inr.inr =>
    rw [Later]
    omega

theorem spaced_behind (hc : ∀ tick ∈ u, 0 < tick.nowUtc) (hl : watchdog.lastCheckUtc ≠ 0) :
    (watchdog.lastCheckUtc :: (watchdog.probed u).map (·.nowUtc)).IsChain Later := by
  induction u generalizing watchdog
  case nil => exact .singleton _
  case cons tick u hi =>
    have hi (w : Watchdog) := @hi w fun tick hm => hc tick (List.mem_cons_of_mem _ hm)
    have hn := hc tick List.mem_cons_self
    rw [probed]
    by_cases h : watchdog.Probes tick
    case neg =>
      rw [tick_idle h, if_neg h, List.nil_append]
      exact hi watchdog hl
    case pos =>
      have hu : (watchdog.tickWatchdog tick).1.lastCheckUtc = tick.nowUtc := by
        rw [(tick_probe h).right.left, if_neg (not_le.mpr hn)]
      rw [if_pos h, List.singleton_append, List.map_cons, List.isChain_cons_cons]
      exact ⟨later_of_probes h hn hl, hu ▸ hi _ (hu ▸ hn.ne')⟩

theorem spaced (hc : ∀ tick ∈ u, 0 < tick.nowUtc) :
    ((watchdog.probed u).map (·.nowUtc)).IsChain Later := by
  induction u generalizing watchdog
  case nil => exact .nil
  case cons tick u hi =>
    have ht : ∀ tick ∈ u, 0 < tick.nowUtc := fun tick hm => hc tick (List.mem_cons_of_mem _ hm)
    have hn := hc tick List.mem_cons_self
    rw [probed]
    by_cases h : watchdog.Probes tick
    case neg =>
      rw [tick_idle h, if_neg h, List.nil_append]
      exact hi ht
    case pos =>
      have hu : (watchdog.tickWatchdog tick).1.lastCheckUtc = tick.nowUtc := by
        rw [(tick_probe h).right.left, if_neg (not_le.mpr hn)]
      rw [if_pos h, List.singleton_append, List.map_cons]
      exact hu ▸ spaced_behind ht (hu ▸ hn.ne')

-- A tick that does not ask has an answer that is recent enough.
theorem fresh (hc : ∀ tick ∈ u, 0 < tick.nowUtc) (he : tick.enableAi) :
    ∃ probe ∈ initial.probed (u ++ [tick]),
      tick.nowUtc < probe.nowUtc + kWatchdogIntervalSeconds ∧
        (initial.ticks (u ++ [tick])).1.reachable = probe.reachable := by
  have hp : (initial.ticks u).1.probed [tick] =
      if (initial.ticks u).1.Probes tick then [tick] else [] := by
    rw [probed, probed, List.append_nil]
  rw [ticks_append, probed_append, hp]
  by_cases h : (initial.ticks u).1.Probes tick
  case pos => exact ⟨tick, by simp [h], by simp [kWatchdogIntervalSeconds], (tick_probe h).left⟩
  case neg =>
    have hlast := @ticks_lastCheckUtc initial u hc
    have hreach := @ticks_reachable initial u
    have hs : ((initial.ticks u).1.ticks [tick]).1 = (initial.ticks u).1 := by
      rw [Watchdog.ticks, tick_idle h]
      rfl
    rw [hs]
    simp only [Probes, he, true_and, not_or, not_le] at h
    obtain ⟨_, hl, hi⟩ := h
    cases List.eq_nil_or_concat (initial.probed u)
    case inl hu =>
      rw [hu] at hlast
      exact absurd hlast hl
    case inr hu =>
      obtain ⟨before, probe, hu⟩ := hu
      rw [hu] at hlast hreach ⊢
      have hlast : (initial.ticks u).1.lastCheckUtc = probe.nowUtc := by simpa using hlast
      have hreach : (initial.ticks u).1.reachable = probe.reachable := by simpa using hreach
      exact ⟨probe, by simp, by omega, hreach⟩

-- While the clock runs, the provider is asked at most every fifteen seconds, and what is known of it
-- at a tick is not older than that.
theorem probes_spaced_and_fresh (ticks : List WatchdogTick) (hc : ∀ tick ∈ ticks, 0 < tick.nowUtc) :
    ((initial.probed ticks).map (·.nowUtc)).IsChain Later ∧
      ∀ u tick v, ticks = u ++ tick :: v → tick.enableAi →
        ∃ probe ∈ initial.probed (u ++ [tick]),
          tick.nowUtc < probe.nowUtc + kWatchdogIntervalSeconds ∧
            (initial.ticks (u ++ [tick])).1.reachable = probe.reachable := by
  refine ⟨spaced hc, fun u tick v ht he => ?_⟩
  subst ht
  exact fresh (fun tick hm => hc tick (List.mem_append_left _ hm)) he

-- The second of three ticks falls into the interval of the first.
def threeTicks : List WatchdogTick := [
  ⟨true, "http://127.0.0.1:11434", 100, true, 200, 100000⟩,
  ⟨true, "http://127.0.0.1:11434", 110, false, 0, 110000⟩,
  ⟨true, "http://127.0.0.1:11434", 120, false, 0, 120000⟩
]

theorem probes_spaced_and_fresh_three :
    ((initial.probed threeTicks).map (·.nowUtc)).IsChain Later ∧
      ∀ u tick v, threeTicks = u ++ tick :: v → tick.enableAi →
        ∃ probe ∈ initial.probed (u ++ [tick]),
          tick.nowUtc < probe.nowUtc + kWatchdogIntervalSeconds ∧
            (initial.ticks (u ++ [tick])).1.reachable = probe.reachable :=
  probes_spaced_and_fresh threeTicks (by decide)

end Freshness
end Droidcli.Cli.Watchdog
