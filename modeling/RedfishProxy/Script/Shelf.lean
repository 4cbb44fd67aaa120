import RedfishProxy.Script.Fetch
import RedfishProxy.Shipped.SerdeHost

/-!
# A BMC that serves a list of documents

Each at its path and nothing else, whatever is asked of it, behind the parser
and the writer of JSON text.
-/

namespace RedfishProxy.Script

open Lib Http Shipped

/-- The answer to a request for a document, or for none. -/
def shelfReply : Option (Text × Json Nat) → Reply
  | some (_, document) => { status := 200, headers := .new, body := .ok (writeBody document) }
  | none => { status := 404, headers := .new, body := .ok [] }

def shelfHost (target : SocketAddrV4) (shelf : List (Text × Json Nat)) : Host Nat (Json Nat) Unit :=
  (serdeHost fun outbound net =>
    (.ok (shelfReply (shelf.find? fun entry => urlTo target entry.1 == outbound.url)), net)).toHost

variable {ctx : RequestCtx} {shelf : List (Text × Json Nat)} {path : Text} {document : Json Nat}

theorem find?_urlTo (target : SocketAddrV4) (shelf : List (Text × Json Nat)) (path : Text) :
    (shelf.find? fun entry => urlTo target entry.1 == urlTo target path) =
      shelf.find? fun entry => entry.1 == path := by
  congr 1
  funext entry
  rw [Bool.eq_iff_iff, beq_iff_eq, beq_iff_eq]
  exact List.append_right_inj _

theorem client_shelfHost (path : Text) (net : Unit) :
    (shelfHost ctx.target shelf).client (getOutbound ctx path) net =
      (.ok (shelfReply (shelf.find? fun entry => entry.1 == path)), net) := by
  show (Except.ok (shelfReply (shelf.find? fun entry =>
    urlTo ctx.target entry.1 == urlTo ctx.target path)), net) = _
  rw [find?_urlTo]

theorem serves_shelfHost
    (hfind : (shelf.find? fun entry => entry.1 == path) = some (path, document))
    (hfits : Json.Fits serdeLimit document) :
    Serves (shelfHost ctx.target shelf) ctx (fun _ => True) path document where
  answer := by
    intro net _
    rw [client_shelfHost, hfind]
    exact ⟨_, _, rfl, rfl, rfl, parseBody_writeBody hfits⟩
  keeps := fun _ _ => trivial

variable (hpath : requireAbsolute path = .ok ())
include hpath

theorem exec_getJson_shelfHost
    (hfind : (shelf.find? fun entry => entry.1 == path) = some (path, document))
    (hfits : Json.Fits serdeLimit document) (world : World Unit) :
    exec (getJson (shelfHost ctx.target shelf) ctx path) world = (.ok document, world) := by
  have hserves : Serves (shelfHost ctx.target shelf) ctx (fun _ => True) path document :=
    serves_shelfHost hfind hfits
  have hworld : (fun _ => True) world.net := trivial
  obtain ⟨next, hrun, _⟩ := hserves.exec_getJson hpath hworld
  have hids : next.ids = world.ids := by
    rw [← ids_getJson (shelfHost ctx.target shelf) path world, hrun]
  obtain rfl : next = world := by
    cases next
    cases world
    cases hids
    rfl
  exact hrun

theorem exec_getJson_missing (hfind : (shelf.find? fun entry => entry.1 == path) = none)
    (world : World Unit) :
    ∃ fault,
      exec (getJson (shelfHost ctx.target shelf) ctx path) world = (.error fault, world) := by
  rw [exec_getJson _ hpath, client_shelfHost, hfind]
  exact ⟨_, rfl⟩

end RedfishProxy.Script
