import RedfishProxy.Http.LeakText
import RedfishProxy.Lib.Whatwg

/-!
# Error texts

What fails in the proxy fails with a text. A `Fault` is that text as
the `format!` puts it together: literals, arguments written with `{}` or with
`{:?}`, and what another crate says of its own error.
-/

namespace RedfishProxy.Http

open Lib

/-- What serde or the client says of its own: a phrase, with no URL in it. -/
structure Complaint where
  text : Text
  quiet : NoSep text

/-- An error of the upstream client before there is a response. -/
structure TransportError where
  what : Complaint
  /-- What follows the path in the URL the error names, if it names one. -/
  named : Option Text
  isTimeout : Bool

/-- The `Display` of the error, where `url` is the one the request was for. -/
def TransportError.display (error : TransportError) (url : Option Whatwg.Url) : Text :=
  error.what.text ++
    match url, error.named with
    | some url, some tail => " for url (".toList ++ url.display ++ tail ++ ")".toList
    | _, _ => []

/-- One part of an error text. -/
inductive Part where
  | lit (text : Text)
  | display (text : Text)
  | debug (text : Text)
  | complaint (error : Complaint)
  | transport (error : TransportError) (url : Option Whatwg.Url)

abbrev Fault := List Part

def Part.text (unprintable : Char → Bool) : Part → Text
  | lit text => text
  | display text => text
  | debug text => text.debug unprintable
  | complaint error => error.text
  | transport error url => error.display url

/-- The text a script sees. -/
def Fault.text (unprintable : Char → Bool) (fault : Fault) : Text :=
  fault.flatMap (Part.text unprintable)

end RedfishProxy.Http
