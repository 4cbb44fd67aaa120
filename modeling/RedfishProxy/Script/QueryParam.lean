import RedfishProxy.Http.Links
import RedfishProxy.Lib.FormData
import RedfishProxy.Script.Visible

/-!
# The parameters of a request

`query_param` puts the query into a URL of its own and reads it as form data.
However a client writes its parameters, a script finds what they say.

Main result:
* `query_param_spelled`: the first parameter of a name, whatever its spelling.
-/

namespace RedfishProxy.Script

open Lib Http FormData

/-- `query_pairs`. -/
def queryPairs (url : WebUrl.Url) : List (Text × Text) := FormData.parse (url.query.getD [])

/-- `ScriptRequest::query_param`. -/
def ScriptRequest.queryParam (hosts : WebUrl.HostParser) (request : ScriptRequest) (name : Text) :
    Option Text :=
  (WebUrl.parse hosts ("https://proxy/?".toList ++ request.query)).bind fun url =>
    ((queryPairs url).find? fun pair => pair.1 == name).map Prod.snd

section QueryParam

variable {hosts : WebUrl.HostParser}

/-- Behind `/?` a clean query is the query. -/
theorem queryBehind_clean {query : Text} (hquery : ∀ c ∈ query, 32 < c.toNat ∧ c ≠ '#') :
    WebUrl.queryBehind .special ('/' :: '?' :: query) =
      some (WebUrl.encodeText WebUrl.specialQuerySet query) := by
  have hrest : ∀ c ∈ '/' :: '?' :: query, 32 < c.toNat ∧ c ≠ '#' :=
    List.forall_mem_cons.mpr ⟨by decide, List.forall_mem_cons.mpr ⟨by decide, hquery⟩⟩
  have hclean := Whatwg.cleanTail_append (fun c hc => (hrest c hc).1) []
  have hcut := WebUrl.cutAt_append (fun hmem => (hrest '#' hmem).2 rfl) []
  have hmark := WebUrl.cutAt_mark (show '?' ∉ ['/'] by decide) query
  rw [List.append_nil] at hclean hcut
  unfold WebUrl.queryBehind
  rw [hclean, show Whatwg.cleanTail [] = [] from rfl, List.append_nil, hcut]
  show (WebUrl.cutAt '?' ('/' :: '?' :: query ++ [])).2.map _ = _
  rw [List.append_nil]
  rw [show '/' :: '?' :: query = ['/'] ++ '?' :: query from rfl, hmark, Option.map_some,
    if_neg (by decide)]

/-- The query of the URL is that of the request, with more of it escaped. -/
theorem parse_proxy {host : Text} (hproxy : hosts.parse false "proxy".toList = some host)
    {query : Text} (hquery : ∀ c ∈ query, 32 < c.toNat ∧ c ≠ '#') :
    ∃ url, WebUrl.parse hosts ("https://proxy/?".toList ++ query) = some url ∧
      url.query = some (WebUrl.encodeText WebUrl.specialQuerySet query) := by
  have hscheme : WebUrl.IsScheme "https".toList := ⟨'h', "ttps".toList, rfl, by decide, by decide⟩
  have hauthority : ∀ c ∈ "proxy".toList, WebUrl.IsAuthorityChar c := by
    unfold WebUrl.IsAuthorityChar
    decide
  have hread : WebUrl.readAuthority hosts "https".toList "proxy".toList =
      some { username := [], password := [], host, port := none } := by
    have hparse : WebUrl.parseAuthority hosts "https".toList "proxy".toList =
        (hosts.parse false "proxy".toList).bind fun host =>
          some { username := [], password := [], host, port := none } := rfl
    unfold WebUrl.readAuthority
    rw [if_neg (by decide), hparse, hproxy]
    rfl
  have hlower : "https".toList.map Char.toLower = "https".toList := by decide
  obtain ⟨fragment, hparse⟩ : ∃ fragment, WebUrl.parse hosts
      ("https".toList ++ "://".toList ++ "proxy".toList ++ '/' :: '?' :: query) = _ :=
    WebUrl.parse_link hscheme (by decide) hauthority (fun hfile => absurd hfile (by decide))
      (WebUrl.isRest_slash ('?' :: query))
  rw [hlower, hread, Option.map_some] at hparse
  exact ⟨_, hparse, queryBehind_clean hquery⟩

/-- **A parameter is found**, however the client writes it: the first one of the
name, among all that the query says. -/
theorem query_param_spelled {host : Text} (hproxy : hosts.parse false "proxy".toList = some host)
    {parts : Parts} {written : List Text} {said : List (Option (Text × Text))}
    (hquery : parts.uri.query = some (join written)) (hspelled : SpellsAll written said)
    (body : List UInt8) (name : Text) :
    (scriptRequest parts body).queryParam hosts name =
      (said.reduceOption.find? fun pair => pair.1 == name).map Prod.snd := by
  have hmem : ∀ c ∈ join written, 32 < c.toNat ∧ c ≠ '#' :=
    mem_join (by decide) (hspelled.forall fun _ _ hpart c hc =>
      ⟨(hpart.mem c hc).1, (hpart.mem c hc).2.1⟩)
  obtain ⟨url, hparse, hurl⟩ := parse_proxy hproxy hmem
  have hpairs : queryPairs url = said.reduceOption := by
    unfold queryPairs
    rw [hurl, Option.getD_some, encodeText_join (by decide)]
    exact parse_spelled (hspelled.encodeText spares_specialQuerySet (by decide))
  have hrequest : (scriptRequest parts body).query = join written := by
    unfold scriptRequest
    rw [hquery]
    rfl
  unfold ScriptRequest.queryParam
  rw [hrequest, hparse, Option.bind_some, hpairs]

end QueryParam

/-- `?q=a+%C3%a9`. -/
def accentParts : Parts where
  method := .GET
  uri := { path := "/redfish/v1".toList, query := some (join ["q=a+%C3%a9".toList]) }
  headers := .new

theorem query_param_spelled_accent :
    (scriptRequest accentParts []).queryParam nameHosts "q".toList = some "a é".toList := by
  have hescapes : Escapes (String.utf8EncodeChar 'é') "%C3%a9".toList := by
    have hbytes : String.utf8EncodeChar 'é' = [0xC3, 0xA9] := by decide
    rw [hbytes]
    exact .cons (by decide) (by decide) (.cons (by decide) (by decide) .nil)
  have hvalue : Spells isValuePlain "a+%C3%a9".toList "a é".toList :=
    .plain (by decide) (.space (.escaped hescapes .nil))
  have hspelled : SpellsAll ["q=a+%C3%a9".toList] [some ("q".toList, "a é".toList)] :=
    .cons (.pair (.plain (by decide) .nil) hvalue) .nil
  have hproxy : nameHosts.parse false "proxy".toList = some "proxy".toList := by decide
  exact query_param_spelled hproxy rfl hspelled [] "q".toList

end RedfishProxy.Script
