import Droidcli.Lib.Bytes

namespace Droidcli.Net

inductive HttpMethod
  | get
  | post
  | unknown
  deriving DecidableEq

structure HttpHeader where
  name : Bytes
  value : Bytes

structure HttpRequest where
  method : HttpMethod
  path : Bytes
  queryString : Bytes
  body : Bytes
  headers : List HttpHeader

end Droidcli.Net
