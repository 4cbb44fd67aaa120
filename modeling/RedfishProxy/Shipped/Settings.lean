import RedfishProxy.Shipped.RefusedWrite

/-!
# The settings of a system

`system_settings.rn` answers for the pending copy of a system: the same `PATCH`
without the order, and a read with an order of its own. `boot_options.rn` lists
what an order can name.

Main results:
* `serveSettings_patch`: what a `PATCH` of the settings comes to.
* `settings_reports`: the order of the settings is always the stub.
* `bootOptions_serves`: the collection has the options of the stub.
-/

namespace RedfishProxy.Shipped

open Lib Http Script RuneHost ScriptUtil
open ScriptStore (Store)

/-- A request that reads the settings of a system. -/
structure ReadsSettings (system : Text) (arrival : Arrival) : Prop where
  path : segment arrival.parts.uri.path 4 = some system
  read : isWrite (scriptRequest arrival.parts arrival.body) = false

section Settings

variable {ν σ : Type} (host : Rune ν σ) (target : SocketAddrV4) (base : Base)

/-- The response to a request for the settings, and the machine it leaves. -/
def serveSettings (arrival : Arrival) (store : Store (Json ν)) (net : σ) :
    Response × Machine ν σ :=
  serve host (systemSettings host) target base arrival store net

/-- And for the boot options. -/
def serveBootOptions (arrival : Arrival) (store : Store (Json ν)) (net : σ) :
    Response × Machine ν σ :=
  serve host (bootOptions host) target base arrival store net

/-- The `Boot.BootOrder` of the document in a response. -/
def ReportsOrder (response : Response) (order : Json ν) : Prop :=
  ∃ document, Shows host response document ∧
    (document.index "Boot".toList).index "BootOrder".toList = order

variable {host target base}

/-! ## A write -/

theorem exec_forM_nothing (orders : List (Json ν)) (machine : Machine ν σ) :
    exec (orders.forM fun _ => (pure () : Script ν σ Unit)) machine = (.ok (), machine) := by
  induction orders with
  | nil => rfl
  | cons order orders ih =>
      show exec (pure () >>= fun _ => orders.forM fun _ => pure ()) machine = _
      rw [exec_bind, exec_pure, thenExec_ok, ih]

/-- **What a `PATCH` of the settings comes to.** No order is kept. -/
theorem exec_patchSettings (ctx : RequestCtx) (system : Text) (req : ScriptRequest)
    (machine : Machine ν σ) :
    let write := bootWrite host req
    let run := exec (patchSettings host ctx system req) machine
    run.2.store = machine.store ∧
      ((write.ended = .ok () ∧
          (answer host ctx run.1).status = bootStatus host ctx system write.taken machine.world.net ∧
          run.2.world.net = bootNet host ctx system write.taken machine.world.net) ∨
        (write.ended ≠ .ok () ∧ (answer host ctx run.1).status = 502 ∧
          run.2.world.net = machine.world.net)) := by
  intro write run
  have hrun : run = thenExec (finishBoot host ctx system)
      (exec (write.follow fun _ => pure ()) machine) := by
    show exec (bootOverrides host (fun _ => pure ()) req >>= _) machine = _
    rw [exec_bind, exec_bootOverrides]
  unfold BootWrite.follow at hrun
  rw [exec_bind, exec_forM_nothing, thenExec_ok] at hrun
  rw [hrun]
  cases hended : write.ended with
  | error stop => exact ⟨rfl, .inr ⟨by simp, status_answer_error host ctx _, rfl⟩⟩
  | ok value =>
      obtain ⟨hstatus, hstore, hnet⟩ := exec_finishBoot ctx system (fits_taken req) machine
      exact ⟨hstore, .inl ⟨rfl, hstatus, hnet⟩⟩

/-- A request for the settings, at the branch of its method. -/
theorem serveSettings_eq {system : Text} {arrival : Arrival}
    (hpath : segment arrival.parts.uri.path 4 = some system) (store : Store (Json ν)) (net : σ) :
    serveSettings host target base arrival store net =
      let ctx := arrival.ctx target base
      let req := scriptRequest arrival.parts arrival.body
      let run := exec (if isWrite req then patchSettings host ctx system req
        else readSettings host ctx system) (opened ctx store net)
      (answer host ctx run.1, run.2) := by
  have hrun : exec (systemSettings host (arrival.ctx target base)
      (scriptRequest arrival.parts arrival.body)) (start store net) =
        exec (if isWrite (scriptRequest arrival.parts arrival.body) then
            patchSettings host (arrival.ctx target base) system
              (scriptRequest arrival.parts arrival.body)
          else readSettings host (arrival.ctx target base) system)
          (opened (arrival.ctx target base) store net) := by
    unfold systemSettings
    rw [exec_opened]
    show exec (tryOption (segment arrival.parts.uri.path 4) >>= _) _ = _
    rw [hpath, exec_bind, exec_tryOption_some, thenExec_ok]
  unfold serveSettings serve
  simp only
  rw [show requestCtx target base arrival.parts arrival.body = arrival.ctx target base from rfl, hrun]

/-! ## A read -/

theorem keyPaths_bootMembers (system : Text) :
    ∀ path ∈ (bootMembers (ν := ν) system).map Prod.fst, IsKeyPath path := by
  show ∀ path ∈ ["BootOrder".toList, "BootOptions/@odata.id".toList], IsKeyPath path
  decide

variable (host) in
/-- The document has a `Boot` of the BMC's, or an empty one. -/
theorem exec_currentBoot {current : BmcResponse} (h : Parses host current.status current.headers current.body)
    (machine : Machine ν σ) : ∃ boot, exec (currentBoot host current) machine = (.ok boot, machine) ∧
      Json.Fits (host.limit - 1) boot := by
  have hlimit := host.limit_ge
  have hempty : Json.Fits (host.limit - 1) (.ofFields [] : Json ν) := by
    have hnone : Json.Fits (host.limit - 2 + 1) (.ofFields [] : Json ν) :=
      Json.fits_ofFields fun field hfield => absurd hfield (by simp)
    rwa [show host.limit - 2 + 1 = host.limit - 1 by omega] at hnone
  unfold currentBoot
  split
  · rename_i hreadable
    obtain ⟨hok, hjson⟩ := Bool.and_eq_true_iff.mp hreadable
    obtain ⟨document, hdocument⟩ := h hok hjson
    have hread := scriptFromSlice_of_fromSlice hdocument
    rw [exec_bind, bodyJson_of_scriptFromSlice hread, exec_tryResult_ok, thenExec_ok]
    refine ⟨_, rfl, ?_⟩
    cases hboot : valueAt (host.scriptValue document) "Boot".toList with
    | none => exact hempty
    | some boot =>
        have hlength : ("Boot".toList.splitOn '/').length = 1 := by decide
        have hfits := (walk_fits (fits_of_scriptFromSlice hread) hboot).2
        rwa [hlength] at hfits
  · exact ⟨_, rfl, hempty⟩

variable (host) in
/-- Or neither, when the body cannot be read. -/
theorem exec_currentBoot_error {current : BmcResponse} (h : ¬ Parses host current.status current.headers current.body)
    (machine : Machine ν σ) :
    ∃ stop, exec (currentBoot host current) machine = (.error stop, machine) := by
  obtain ⟨hok, hjson, fault, hfault⟩ := bodyJson_of_not_parses h "response".toList
  unfold currentBoot
  rw [if_pos (by rw [hok, hjson]; rfl), exec_bind, hfault]
  exact ⟨_, rfl⟩

theorem fits_settingsDocument {boot : Json ν} (system : Text)
    (h : Json.Fits (host.limit - 1) boot) : Json.Fits host.limit
      (settingsDocument system (writtenEach (bootMembers system) boot)) := by
  have hlimit := host.limit_ge
  have hboot : Json.Fits (host.limit - 1) (writtenEach (bootMembers system) boot) := by
    refine fits_writtenEach h ?_
    unfold bootMembers
    simp only [List.forall_mem_cons]
    refine ⟨⟨1, .array ?_, ?_⟩, ⟨0, .string _, ?_⟩, by simp⟩
    · simp only [List.forall_mem_cons]
      exact ⟨.string _, .string _, by simp⟩
    · have hlength : ("BootOrder".toList.splitOn '/').length = 1 := by decide
      omega
    · have hlength : ("BootOptions/@odata.id".toList.splitOn '/').length = 2 := by decide
      omega
  rw [show host.limit = host.limit - 1 + 1 by omega]
  apply Json.fits_ofFields
  simp only [List.forall_mem_cons]
  exact ⟨.string _, .string _, .string _, .string _, hboot, by simp⟩

/-- **A read is served a document when the system can be read.** -/
theorem exec_readSettings {ctx : RequestCtx} {system : Text} (machine : Machine ν σ)
    {current : BmcResponse} (hcurrent : systemReply host ctx system machine.world.net = .ok current)
    (hparses : Parses host current.status current.headers current.body) :
    ∃ boot response, (exec (readSettings host ctx system) machine).1 = .ok (.script response) ∧
      Carries host ctx response 200
        (settingsDocument system (writtenEach (bootMembers system) boot)) := by
  unfold readSettings
  rw [exec_bind, exec_getSystem, hcurrent]
  generalize ({ machine with world := _ } : Machine ν σ) = asked
  obtain ⟨boot, hboot, hfits⟩ := exec_currentBoot host hparses asked
  obtain ⟨response, record, hrun, hcarries⟩ := exec_rewriteScript host ctx asked
    (fits_settingsDocument system hfits) 200
  refine ⟨boot, response, ?_, hcarries⟩
  show (thenExec _ (Except.ok current, asked)).1 = _
  rw [thenExec_ok, exec_bind, hboot, thenExec_ok, exec_bind,
    exec_setEach (keyPaths_bootMembers system), thenExec_ok, hrun]

/-- And otherwise it is not. -/
theorem exec_readSettings_error {ctx : RequestCtx} {system : Text} (machine : Machine ν σ)
    (h : ∀ current, systemReply host ctx system machine.world.net = .ok current →
      ¬ Parses host current.status current.headers current.body) :
    ∃ stop, (exec (readSettings host ctx system) machine).1 = .error stop := by
  unfold readSettings
  rw [exec_bind, exec_getSystem]
  cases hcurrent : systemReply host ctx system machine.world.net with
  | error fault => exact ⟨_, rfl⟩
  | ok current =>
      generalize ({ machine with world := _ } : Machine ν σ) = asked
      obtain ⟨stop, hstop⟩ := exec_currentBoot_error host (h current hcurrent) asked
      refine ⟨stop, ?_⟩
      show (thenExec _ (Except.ok current, asked)).1 = _
      rw [thenExec_ok, exec_bind, hstop]
      rfl

theorem served_stubOrder (ctx : RequestCtx) :
    served host ctx (stubOrder : Json ν) = stubOrder := by
  unfold stubOrder
  rw [served_array, List.map_cons, List.map_cons, List.map_nil, served_plain host ctx (by decide),
    served_plain host ctx (by decide)]

/-- The order of the settings is the one that is set. -/
theorem index_settingsDocument_order (ctx : RequestCtx) (system : Text) (boot : Json ν) :
    ((served host ctx (settingsDocument system (writtenEach (bootMembers system) boot))).index
      "Boot".toList).index "BootOrder".toList = stubOrder := by
  have hboot : (settingsDocument system (writtenEach (bootMembers system) boot)).get "Boot".toList =
      some (writtenEach (bootMembers system) boot) := by
    unfold settingsDocument
    rw [Json.get_ofFields]
    rfl
  have horder : (writtenEach (bootMembers system) boot).get "BootOrder".toList =
      some stubOrder := by
    have hsplit : "BootOrder".toList.splitOn '/' = ["BootOrder".toList] := by decide
    unfold bootMembers
    rw [writtenEach_cons, get_writtenEach_of_ne, hsplit, get_written, if_pos rfl]
    · rfl
    · show ∀ path ∈ ["BootOptions/@odata.id".toList], (path.splitOn '/').head? ≠ _
      decide
  unfold Json.index
  rw [get_served, hboot, Option.map_some, Option.getD_some, get_served, horder, Option.map_some,
    Option.getD_some, served_stubOrder]

/-- **The settings report the stub**, whatever the store has and the BMC answers,
when the answer can be read. -/
theorem settings_serves {system : Text} {arrival : Arrival}
    (h : ReadsSettings system arrival) (store : Store (Json ν)) {net : σ} {current : BmcResponse}
    (hcurrent : systemReply host (arrival.ctx target base) system net = .ok current)
    (hparses : Parses host current.status current.headers current.body) :
    (serveSettings host target base arrival store net).1.status = 200 ∧
      ReportsOrder host (serveSettings host target base arrival store net).1 stubOrder := by
  rw [serveSettings_eq h.path]
  simp only [h.read, Bool.false_eq_true, if_false]
  generalize arrival.ctx target base = ctx at hcurrent ⊢
  obtain ⟨boot, response, hrun, hcarries⟩ :=
    exec_readSettings (opened ctx store net) hcurrent hparses
  rw [hrun]
  exact ⟨hcarries.status, _, hcarries.shows, index_settingsDocument_order ctx system boot⟩

theorem settings_reports {system : Text} {arrival : Arrival}
    (h : ReadsSettings system arrival) (store : Store (Json ν)) (net : σ)
    (hanswered : (serveSettings host target base arrival store net).1.status ≠ 502) :
    ReportsOrder host (serveSettings host target base arrival store net).1 stubOrder := by
  by_cases hread : ∃ current, systemReply host (arrival.ctx target base) system net = .ok current ∧
      Parses host current.status current.headers current.body
  · obtain ⟨current, hcurrent, hparses⟩ := hread
    exact (settings_serves h store hcurrent hparses).2
  · exfalso
    apply hanswered
    rw [serveSettings_eq h.path]
    simp only [h.read, Bool.false_eq_true, if_false]
    obtain ⟨stop, hstop⟩ := exec_readSettings_error
      (opened (arrival.ctx target base) store net)
      fun current hcurrent hparses => hread ⟨current, hcurrent, hparses⟩
    rw [hstop, status_answer_error]

/-! ## The options -/

theorem containsSep_cons (c : Char) (text : Text) :
    containsSep (c :: text) = ("://".toList.isPrefixOf (c :: text) || containsSep text) := by
  unfold containsSep
  rw [Text.find]
  split
  · rename_i hstarts
    rw [hstarts]
    rfl
  · rename_i hstarts
    rw [Bool.eq_false_iff.mpr hstarts, Option.isSome_map]
    rfl

theorem containsSep_append_of_notMem {front : Text} (h : ':' ∉ front) (rest : Text) :
    containsSep (front ++ rest) = containsSep rest := by
  induction front with
  | nil => rfl
  | cons c front ih =>
      have hc : (':' == c) = false := by
        rw [beq_eq_false_iff_ne]
        intro heq
        exact h (heq ▸ List.mem_cons_self)
      have hstarts : "://".toList.isPrefixOf (c :: (front ++ rest)) = false := by
        show (':' == c && _) = false
        rw [hc]
        rfl
      rw [List.cons_append, containsSep_cons, hstarts, Bool.false_or,
        ih fun hmem => h (List.mem_cons_of_mem _ hmem)]

/-- A piece of a path does not end in a separator. -/
theorem containsSep_piece {piece : Text} (h : '/' ∉ piece) {c : Char} (hc : c ≠ '/')
    (rest : Text) : containsSep (piece ++ '/' :: c :: rest) = containsSep ('/' :: c :: rest) := by
  induction piece with
  | nil => rfl
  | cons d piece ih =>
      have hstarts : "://".toList.isPrefixOf (d :: (piece ++ '/' :: c :: rest)) = false := by
        cases piece with
        | nil =>
            have hne : ('/' == c) = false := beq_eq_false_iff_ne.mpr hc.symm
            show (':' == d && ('/' == '/' && ('/' == c && _))) = false
            simp [hne]
        | cons e piece =>
            have hne : ('/' == e) = false := by
              rw [beq_eq_false_iff_ne]
              intro heq
              exact h (heq ▸ List.mem_cons_of_mem _ List.mem_cons_self)
            show (':' == d && ('/' == e && _)) = false
            simp [hne]
      rw [List.cons_append, containsSep_cons, hstarts, Bool.false_or,
        ih fun hmem => h (List.mem_cons_of_mem _ hmem)]

/-- The options every collection has. -/
def optionNames : List Text := ["Boot0000".toList, "Boot0001".toList]

def optionPath (system name : Text) : Text :=
  systemPath system ++ "/BootOptions".toList ++ '/' :: name

theorem containsSep_optionPath {system : Text} (h : '/' ∉ system) {name : Text}
    (hname : name ∈ optionNames) : containsSep (optionPath system name) = false := by
  have hshape : optionPath system name = "/redfish/v1/Systems/".toList ++
      (system ++ '/' :: 'B' :: ("ootOptions".toList ++ '/' :: name)) := by
    unfold optionPath systemPath
    rw [List.append_assoc, List.append_assoc]
    rfl
  have hplain : ∀ name ∈ optionNames,
      containsSep ('/' :: 'B' :: ("ootOptions".toList ++ '/' :: name)) = false := by decide
  rw [hshape, containsSep_append_of_notMem (by decide), containsSep_piece h (by decide),
    hplain name hname]

/-- The last piece of a path is its last segment. -/
theorem lastSegment_append (front : Text) {name : Text} (hslash : '/' ∉ name) (hne : name ≠ []) :
    lastSegment (front ++ '/' :: name) = some name := by
  have hlast : (name.getLast hne == '/') = false := by
    rw [beq_eq_false_iff_ne]
    intro heq
    exact hslash (heq ▸ List.getLast_mem hne)
  have htrimmed : (front ++ '/' :: name).trimEndMatches '/' = front ++ '/' :: name := by
    unfold Text.trimEndMatches
    conv_lhs => rw [← List.dropLast_append_getLast hne]
    rw [← List.cons_append, ← List.append_assoc,
      List.rdropWhile_concat_neg _ _ _ (by rw [hlast]; decide), List.append_assoc, List.cons_append,
      List.dropLast_append_getLast hne]
  have hsegment : (front ++ '/' :: name).rtakeWhile (· != '/') = name := by
    rw [Text.rtakeWhile_stop (by decide), List.rtakeWhile_eq_self_iff]
    intro c hc
    rw [bne_iff_ne]
    intro heq
    exact hslash (heq ▸ hc)
  unfold lastSegment
  simp only [htrimmed, hsegment]
  rw [if_neg (by simpa using hne)]

/-- The names in the collection of a response. -/
def ListsOptions (host : Rune ν σ) (response : Response) (names : List Text) : Prop :=
  ∃ document, Shows host response document ∧ memberIds document = names

theorem served_option (ctx : RequestCtx) {system : Text} (h : '/' ∉ system) {name : Text}
    (hname : name ∈ optionNames) : ((served host ctx
      (.ofFields [("@odata.id".toList, .string (optionPath system name))])).index
        "@odata.id".toList).asStr.bind lastSegment = some name := by
  have hplain : ∀ name ∈ optionNames, '/' ∉ name ∧ name ≠ [] := by decide
  have hget : (Json.ofFields [("@odata.id".toList, (.string (optionPath system name) : Json ν))]).get
      "@odata.id".toList = some (.string (optionPath system name)) := by
    rw [Json.get_ofFields]
    rfl
  unfold Json.index
  rw [get_served, hget, Option.map_some, Option.getD_some,
    served_plain host ctx (containsSep_optionPath h hname)]
  show lastSegment (optionPath system name) = some name
  unfold optionPath
  exact lastSegment_append _ (hplain name hname).1 (hplain name hname).2

theorem memberIds_bootOptions (ctx : RequestCtx) {system : Text} (h : '/' ∉ system) :
    memberIds (served host ctx (bootOptionsDocument host system)) = optionNames := by
  have hget : (bootOptionsDocument host system).get "Members".toList = some (.array [
      .ofFields [("@odata.id".toList, .string (optionPath system "Boot0000".toList))],
      .ofFields [("@odata.id".toList, .string (optionPath system "Boot0001".toList))]]) := by
    unfold bootOptionsDocument optionPath
    rw [Json.get_ofFields]
    rfl
  unfold memberIds
  rw [Json.index, get_served, hget, Option.map_some, Option.getD_some, served_array]
  show List.filterMap _ [_, _] = _
  rw [List.filterMap_cons, served_option ctx h (by decide), List.filterMap_cons,
    served_option ctx h (by decide)]
  rfl

theorem fits_bootOptionsDocument (system : Text) :
    Json.Fits host.limit (bootOptionsDocument host system) := by
  have hlink : ∀ text : Text,
      Json.Fits 1 (.ofFields [("@odata.id".toList, .string text)] : Json ν) := by
    intro text
    apply Json.fits_ofFields
    simp only [List.forall_mem_cons]
    exact ⟨.string _, by simp⟩
  have hdocument : Json.Fits 3 (bootOptionsDocument host system) := by
    apply Json.fits_ofFields
    simp only [List.forall_mem_cons]
    refine ⟨.string _, .string _, .string _, .array ?_, .number _, by simp⟩
    simp only [List.forall_mem_cons]
    exact ⟨hlink _, hlink _, by simp⟩
  exact hdocument.mono (le_trans (by decide) host.limit_ge)

/-- **The collection has the two options**, for every system. -/
theorem bootOptions_serves {system : Text} {arrival : Arrival}
    (hpath : segment arrival.parts.uri.path 4 = some system) (store : Store (Json ν)) (net : σ) :
    (serveBootOptions host target base arrival store net).1.status = 200 ∧
      ListsOptions host (serveBootOptions host target base arrival store net).1 optionNames := by
  have hslash : '/' ∉ system := slash_notMem_segment hpath
  obtain ⟨response, record, hrewrite, hcarries⟩ := exec_rewriteScript host (arrival.ctx target base)
    (opened (arrival.ctx target base) store net) (fits_bootOptionsDocument system) 200
  have hrun : exec (bootOptions host (arrival.ctx target base)
      (scriptRequest arrival.parts arrival.body)) (start store net) =
        (.ok (.script response), (opened (arrival.ctx target base) store net).logs record) := by
    unfold bootOptions
    rw [exec_opened]
    show exec (tryOption (segment arrival.parts.uri.path 4) >>= _) _ = _
    rw [hpath, exec_bind, exec_tryOption_some, thenExec_ok, hrewrite]
  unfold serveBootOptions serve
  simp only
  rw [show requestCtx target base arrival.parts arrival.body = arrival.ctx target base from rfl, hrun]
  exact ⟨hcarries.status, _, hcarries.shows, memberIds_bootOptions _ hslash⟩

end Settings
end RedfishProxy.Shipped
