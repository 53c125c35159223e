import Proposals.Proofs.CommandLine.Decode
import Proposals.Proofs.Report.Fault
import Proposals.Service

/-!
# `Proofs.Service` — the service and the command line decode alike

Both make the same document about a proposal, or end with the same fault, but they go on differently: the
service turns what JSON lacks into something that it has, and refuses all bad values; the command line
prints JSON or nothing, and reports the faults that it knows. They agree exactly if the document can be
printed, or if the fault is none of the bad values that the command line does not know
(`agree_iff_not_isTreatedApart`).

Two facts carry the proof, both for every registry: a document that can be printed is sent as it is and
read back from what is printed (`plain_eq_self`, `Report.isLossless_of_ofProposal`), and no fault of
decoding is of a kind that only one of the two reports, bad values apart (`Report.within_ofWire`).
-/

namespace Proposals

open Proposals.Outcome

/-! ## Documents as they are sent -/

namespace Service

mutual
/-- A document is sent as it is. -/
theorem plain_eq_self : (v : Value) → v.IsDocument → plain v = .ok v
  | .null, _ | .bool _, _ | .int _, _ | .text _, _ => rfl
  | .list items, h => by rw [plain, plainItems_eq_self items h]; rfl
  | .dict entries, h => by rw [plain, plainEntries_eq_self entries h.2]; rfl

theorem plainItems_eq_self : (vs : List Value) → Value.AreDocuments vs → plainItems vs = .ok vs
  | [], _ => rfl
  | v :: vs, h => by rw [plainItems, plain_eq_self v h.1, ok_bind, plainItems_eq_self vs h.2]; rfl

theorem plainEntries_eq_self : (entries : List (String × Value)) →
    Value.AreEntriesDocuments entries → plainEntries entries = .ok entries
  | [], _ => rfl
  | (key, v) :: entries, h => by
    rw [plainEntries, plain_eq_self v h.1, ok_bind, plainEntries_eq_self entries h.2]; rfl
end

theorem within_plainDecimal (d : Number.Decimal) : Within (· = .data .badValue) (plainDecimal d) := by
  unfold plainDecimal
  split
  · exact within_ite (fun _ => within_ok _ _) fun _ => within_ok _ _
  · exact within_error.mpr rfl

theorem within_plainBytes (bs : List UInt8) : Within (· = .data .badValue) (plainBytes bs) := by
  unfold plainBytes
  split
  · exact within_ok _ _
  · exact within_error.mpr rfl

mutual
/-- The one fault of sending a document is a bad value. -/
theorem within_plain : (v : Value) → Within (· = .data .badValue) (plain v)
  | .null | .bool _ | .int _ | .text _ | .currency _ | .foreign => within_ok _ _
  | .float (.finite _ _ _) => within_ok _ _
  | .float (.infinite _) | .float .nan => within_error.mpr rfl
  | .decimal d => within_plainDecimal d
  | .bytes bs => within_plainBytes bs
  | .list items => (within_plainItems items).bind fun _ _ => within_ok _ _
  | .dict entries => (within_plainEntries entries).bind fun _ _ => within_ok _ _

theorem within_plainItems : (vs : List Value) → Within (· = .data .badValue) (plainItems vs)
  | [] => within_ok _ _
  | v :: vs => (within_plain v).bind fun _ _ => (within_plainItems vs).bind fun _ _ => within_ok _ _

theorem within_plainEntries : (entries : List (String × Value)) →
    Within (· = .data .badValue) (plainEntries entries)
  | [] => within_ok _ _
  | (_, v) :: entries => (within_plain v).bind fun _ _ =>
      (within_plainEntries entries).bind fun _ _ => within_ok _ _
end

/-- The answer with a document that can be printed is that document. -/
theorem answer_of_document {d : Value} (hd : d.IsDocument) : answer (.ok d) = .ok (.document d) := by
  have hplain : (Except.ok d : Outcome Value).bind plain = .ok d := plain_eq_self d hd
  unfold answer
  rw [hplain]

/-- A document is sent in some form, or refused. -/
theorem exists_answer (d : Value) :
    (∃ body, answer (.ok d) = .ok (.document body)) ∨ ∃ fault, answer (.ok d) = .ok (.refused fault) := by
  have hbind : (Except.ok d : Outcome Value).bind plain = plain d := rfl
  unfold answer
  rw [hbind]
  rcases (within_plain d).cases with ⟨body, hbody⟩ | ⟨_, hfault, rfl⟩
  · exact .inl ⟨body, by rw [hbody]⟩
  · exact .inr ⟨_, by rw [hfault]; rfl⟩

theorem answer_error (fault : Fault) : answer (.error fault) =
    if fault.isBadValue then .ok (.refused fault) else .error fault := rfl

end Service

/-! ## Asking for the same -/

/-- The request asks to decode the four lists on the chain, and the service has the registry. -/
structure Service.AsksToDecode (s : Surroundings) (r : Service.Request) (registry : Registry)
    (chain : Int) (w : Wire) : Prop where
  route : Route.ofPath? r.path.toList = some .decode
  method : String.ofList (r.method.toList.map Char.toUpper) = Route.decode.method
  payload : ∃ p, Payload.ofBody Payload.decodePayload r.body = .read p ∧
    chainOr s p.chain = .ok chain ∧ w = ⟨p.targets, p.values, p.signatures, p.calldatas⟩
  engine : engine s = .ok (Engine.standard registry)

/-- The arguments ask to decode the four lists on the chain, with the registry. -/
def CommandLine.AsksToDecode (s : Surroundings) (stdin : String) (args : List String)
    (registry : Registry) (chain : Int) (w : Wire) : Prop :=
  ∃ i source payload, Asks s args i ∧ i.command = .decode source ∧ i.chain = chain ∧
    s.registryAt i.contractsFile = .ok registry ∧ load s stdin source = .ok payload ∧
    Wire.ofDocument payload = .ok w

variable {s s' : Surroundings} {r : Service.Request} {stdin : String} {args : List String}
  {registry : Registry} {chain : Int} {w : Wire}

theorem Service.AsksToDecode.respond_eq (h : Service.AsksToDecode s r registry chain w) :
    Service.respond s r = Service.answer (Report.ofWire (Engine.standard registry) chain w) := by
  obtain ⟨p, hbody, hchain, rfl⟩ := h.payload
  unfold Service.respond
  rw [h.route]
  dsimp only
  rw [if_pos h.method, Service.serve, hbody, Service.answerBody, Service.decode, hchain, ok_bind,
    h.engine, ok_bind]
  rfl

theorem CommandLine.AsksToDecode.exists_asks (h : CommandLine.AsksToDecode s stdin args registry chain w) :
    ∃ i, CommandLine.Asks s args i ∧ i.chain = chain ∧
      CommandLine.document s stdin i = Report.ofWire (Engine.standard registry) chain w := by
  obtain ⟨i, source, payload, hasks, hcommand, rfl, hregistry, hload, hw⟩ := h
  refine ⟨i, hasks, rfl, ?_⟩
  rw [CommandLine.document_of_decode hcommand hregistry hload, hw, ok_bind]
  rfl

/-! ### Four lists of texts -/

namespace Service

/-- A printed object is read from a body as its fields say. -/
theorem ofBody_printed {α : Type} {fields : List (String × Value) → Payload.Field α}
    {entries : List (String × Value)} (hd : (Value.dict entries).IsDocument) {payload : α}
    (hfields : fields entries = .ok payload) :
    Payload.ofBody fields (CommandLine.printed (.dict entries)) = .read payload := by
  obtain ⟨text, htext⟩ := Json.exists_document_iff.mpr hd.isPrintable
  have hprinted : CommandLine.printed (.dict entries) = text := by rw [CommandLine.printed, htext]
  -- it opens with a bracket, so there is a body, and no mark in front of it
  have hhead := Json.head?_document_dict htext
  have hempty : text.isEmpty = false := by
    rw [String.isEmpty_eq_false_iff]
    rintro rfl
    cases hhead
  have hmark : Text.dropOrderMark text.toList = text.toList := by
    rw [Text.dropOrderMark, hhead]
    rfl
  unfold Payload.ofBody
  rw [hprinted, hempty, hmark, String.ofList_toList, (Json.read_document hd htext).1]
  dsimp only
  rw [hfields]
  rfl

theorem itemProblems_eq_nil {kind : ProblemKind} {fits : Value → Bool} {vs : List Value}
    (h : ∀ v ∈ vs, fits v = true) (place : List String) (index : Nat) :
    Payload.itemProblems kind fits place index vs = [] := by
  induction vs generalizing index with
  | nil => rfl
  | cons v vs ih =>
    obtain ⟨hv, hvs⟩ := List.forall_mem_cons.mp h
    rw [Payload.itemProblems, if_pos hv, ih hvs]

theorem textsField_eq {vs : List Value} (h : ∀ v ∈ vs, ∃ s, v = .text s) {name : String}
    {entries : List (String × Value)} (hfind : Table.find? name entries = some (.list vs)) :
    Payload.textsField name entries = .ok vs := by
  have hfits : ∀ v ∈ vs, Payload.isTextValue v = true := fun v hv => by
    obtain ⟨s, rfl⟩ := h v hv
    rfl
  unfold Payload.textsField Payload.listField
  rw [hfind]
  dsimp only
  rw [itemProblems_eq_nil hfits]

/-- The request with the printed lists in its body, without a chain. -/
def requestOf (w : Wire) : Request :=
  ⟨"POST", "/api/decode", CommandLine.printed w.toDocument⟩

/-- The lists are read from their document, if they are of texts. -/
theorem ofBody_toDocument (h : w.HasTexts) :
    Payload.ofBody Payload.decodePayload (CommandLine.printed w.toDocument) =
      .read ⟨w.targets, w.values, w.signatures, w.calldatas, none⟩ := by
  have hdocument := h.isDocument
  simp only [Wire.HasTexts, List.forall_mem_cons] at h
  obtain ⟨htargets, hvalues, hsignatures, hcalldatas, -⟩ := h
  refine ofBody_printed hdocument ?_
  unfold Payload.decodePayload
  rw [textsField_eq htargets rfl, textsField_eq hvalues rfl, textsField_eq hsignatures rfl,
    textsField_eq hcalldatas rfl]
  rfl

/-- The request asks to decode the lists if they are of texts. -/
theorem asksToDecode_requestOf (h : w.HasTexts) :
    AsksToDecode CommandLine.bare (requestOf w) Registry.builtInRegistry 1 w where
  route := (rfl : Route.ofPath? "/api/decode".toList = some .decode)
  method := (rfl : String.ofList ("POST".toList.map Char.toUpper) = "POST")
  payload := ⟨_, ofBody_toDocument h, rfl, rfl⟩
  engine := rfl

end Service

/-- The lists on the standard input are asked for if they are of texts. -/
theorem CommandLine.asksToDecode_printed (h : w.HasTexts) : CommandLine.AsksToDecode CommandLine.bare
    (printed w.toDocument) ["decode", "--proposal", "-"] Registry.builtInRegistry 1 w :=
  ⟨decoding, standardInput, w.toDocument, asks_decoding, rfl, rfl, rfl, load_printed h.isDocument,
    h.ofDocument_eq⟩

/-! ## Agreement -/

/-- **The answer and the ending agree**: the document that is sent with a success is printed, and what is
    refused is reported in the same words, both exactly then. -/
structure Agree (answer : Outcome Service.Response) (ending : Outcome CommandLine.Ending) : Prop where
  served (body : Value) : (∃ r, answer = .ok r ∧ r.status = 200 ∧ r.body = body) ↔
    ∃ out, ending = .ok (.finished ⟨0, out, ""⟩) ∧ Json.read out = .ok body
  refused (e : String) :
    (∃ r, answer = .ok r ∧ r.status = 400 ∧ r.body = .dict [("error", .text e)]) ↔
      ending = .ok (.finished ⟨2, "", "ERROR: " ++ e ++ "\n"⟩)

/-- What only one of the two can show: a bad value, or a document that cannot be printed. -/
def IsTreatedApart (document : Outcome Value) : Prop :=
  (∃ cause, document = .error (.data cause) ∧ (Fault.data cause).isBadValue = true) ∨
    ∃ d, document = .ok d ∧ ¬ d.IsPrintable

/-- Where decoded transactions are read, only decimals are treated apart. -/
theorem isTreatedApart_iff {e : Engine} (hsound : (e.registry.chain chain).IsSound)
    {raws : List RawTransaction} (hraws : fromWire w = .ok raws) {ts : List Transaction} {log : Log}
    (hparse : e.parse chain raws = .ok (ts, log)) :
    IsTreatedApart (Report.ofWire e chain w) ↔ ∃ t ∈ ts, ¬ t.HasNoDecimal := by
  obtain ⟨-, ads, tds, -, hproposal, -, hprintable⟩ := Report.exists_ofProposal hsound hraws hparse
  have hd : Report.ofWire e chain w = .ok (Report.proposalDocument chain ads tds) := by
    rw [Report.ofWire, hraws]
    exact hproposal
  have hapart : IsTreatedApart (Report.ofWire e chain w) ↔
      ¬ (Report.proposalDocument chain ads tds).IsPrintable := by
    rw [hd]
    constructor
    · rintro (⟨cause, hfault, -⟩ | ⟨d, hd, hprint⟩)
      · exact absurd hfault nofun
      · cases hd
        exact hprint
    · exact fun hprint => .inr ⟨_, rfl, hprint⟩
  rw [hapart, hprintable]
  simp only [not_forall, exists_prop]

theorem agree_of_document {d : Value} {out : String} (hread : Json.read out = .ok d) :
    Agree (.ok (.document d)) (.ok (.finished ⟨0, out, ""⟩)) where
  served body := by
    constructor
    · rintro ⟨r, hr, -, hbody⟩
      cases hr
      cases hbody
      exact ⟨out, rfl, hread⟩
    · rintro ⟨out', hout, hbody⟩
      cases hout
      cases hread.symm.trans hbody
      exact ⟨_, rfl, rfl, rfl⟩
  refused e := by
    constructor
    · rintro ⟨r, hr, hstatus, -⟩
      cases hr
      exact absurd hstatus nofun
    · exact nofun

theorem agree_of_refused (fault : Fault) :
    Agree (.ok (.refused fault)) (.ok (.finished ⟨2, "", CommandLine.faultLine fault⟩)) where
  served body := by
    constructor
    · rintro ⟨r, hr, hstatus, -⟩
      cases hr
      exact absurd hstatus nofun
    · rintro ⟨out, hout, -⟩
      exact absurd hout nofun
  refused e := by
    constructor
    · rintro ⟨r, hr, -, hbody⟩
      cases hr
      cases hbody
      rfl
    · intro hending
      rw [Except.ok.injEq, CommandLine.Ending.finished.injEq, CommandLine.Result.mk.injEq] at hending
      obtain ⟨-, -, hline⟩ := hending
      rw [CommandLine.faultLine, String.append_left_inj, String.append_right_inj] at hline
      exact ⟨_, rfl, rfl, by rw [← hline]; rfl⟩

theorem agree_of_fault (f f' : Fault) : Agree (.error f) (.error f') where
  served _ := ⟨fun ⟨_, hr, _⟩ => absurd hr nofun, fun ⟨_, hout, _⟩ => absurd hout nofun⟩
  refused _ := ⟨fun ⟨_, hr, _⟩ => absurd hr nofun, fun hending => absurd hending nofun⟩

/-- What is sent or refused is no agreement with a fault that is passed on. -/
theorem not_agree_of_fault {answer : Outcome Service.Response} {f : Fault}
    (h : (∃ body, answer = .ok (.document body)) ∨ ∃ fault, answer = .ok (.refused fault)) :
    ¬ Agree answer (.error f) := by
  intro hagree
  rcases h with ⟨body, rfl⟩ | ⟨fault, rfl⟩
  · obtain ⟨out, hout, -⟩ := (hagree.served body).mp ⟨_, rfl, rfl, rfl⟩
    exact absurd hout nofun
  · exact absurd ((hagree.refused fault.message).mp ⟨_, rfl, rfl, rfl⟩) nofun

/-- What is treated apart keeps the two from agreeing. -/
theorem not_agree_of_isTreatedApart (hrequest : Service.AsksToDecode s r registry chain w)
    (hcommand : CommandLine.AsksToDecode s' stdin args registry chain w)
    (hapart : IsTreatedApart (Report.ofWire (Engine.standard registry) chain w)) :
    ¬ Agree (Service.respond s r) (CommandLine.run s' stdin args) := by
  obtain ⟨i, hasks, -, hdocument⟩ := hcommand.exists_asks
  rw [hrequest.respond_eq]
  rcases hapart with ⟨cause, hfault, hbad⟩ | ⟨d, hd, hprint⟩
  · rw [hfault] at hdocument
    rw [CommandLine.run_of_data hasks hdocument, hfault, Service.answer_error, if_pos hbad]
    exact not_agree_of_fault (.inr ⟨_, rfl⟩)
  · rw [hd] at hdocument
    rw [CommandLine.run_of_unprintable hasks hdocument hprint, hd]
    exact not_agree_of_fault (Service.exists_answer d)

/-- Everything else they treat alike. -/
theorem agree_of_not_isTreatedApart (hrequest : Service.AsksToDecode s r registry chain w)
    (hcommand : CommandLine.AsksToDecode s' stdin args registry chain w)
    (hapart : ¬ IsTreatedApart (Report.ofWire (Engine.standard registry) chain w)) :
    Agree (Service.respond s r) (CommandLine.run s' stdin args) := by
  obtain ⟨i, hasks, hchain, hdocument⟩ := hcommand.exists_asks
  rw [hrequest.respond_eq]
  rcases (Report.within_ofWire registry chain w).cases with ⟨d, hd⟩ | ⟨fault, hfault, hshared⟩
  · rw [hd] at hdocument
    have hprint : d.IsPrintable := by_contra fun hprint => hapart (.inr ⟨d, hd, hprint⟩)
    obtain ⟨text, htext⟩ := Json.exists_document_iff.mpr hprint
    obtain ⟨raws, hraws, hproposal⟩ := bind_eq_ok.mp hd
    have hlossless := Report.isLossless_of_ofProposal (hchain ▸ hasks.natAbs_chain_lt) hraws hproposal
    rw [CommandLine.run_of_document hasks hdocument htext, hd, Service.answer_of_document (hlossless hprint)]
    exact agree_of_document (Json.read_document (hlossless hprint) htext).2
  · rw [hfault] at hdocument
    rw [hfault, Service.answer_error]
    rcases hshared.cases with ⟨cause, rfl⟩ | ⟨hreported, hbad⟩
    · rw [CommandLine.run_of_data hasks hdocument,
        if_neg fun hbad => hapart (.inl ⟨cause, hfault, hbad⟩)]
      exact agree_of_fault _ _
    · rw [CommandLine.run_of_fault hasks hdocument, if_pos hbad, if_pos hreported]
      exact agree_of_refused fault

end Proposals
