import Proposals.CommandLine
import Proposals.Proofs.Json.Document
import Proposals.Proofs.Number.Size
import Proposals.Proofs.Registry

/-!
# `Proofs.CommandLine` — how a command ends

A command that is asked for (`Asks`) makes one document or ends with a fault. A document that can be
printed is the whole output of the command, and if it can be read back, then it is read back from the
output. Of faults those are reported that the command knows, and the others are passed on (`run_of_fault`).
-/

namespace Proposals.CommandLine

open Proposals.Number Proposals.Outcome

variable {s : Surroundings} {stdin : String} {args : List String} {i : Invocation}

/-- The arguments ask for the invocation, in surroundings with valid settings. -/
def Asks (s : Surroundings) (args : List String) (i : Invocation) : Prop :=
  ∃ settings, s.settings = .ok settings ∧ Invocation.ofArguments settings args = .ok i

/-! ## The chain that is asked for -/

theorem natAbs_chain_lt_of_variables {find? : String → Option String} {settings : Settings}
    (h : Settings.ofVariables find? = .ok settings) : settings.chain.natAbs < tenTo maxDigits := by
  unfold Settings.ofVariables at h
  dsimp only at h
  split at h
  · cases h
    exact Nat.lt_of_lt_of_le (by decide : 1 < tenTo 1) (tenTo_le (by decide))
  · split at h
    · next hread =>
      cases h
      exact Validation.natAbs_lt_of_integerOfText hread
    · exact absurd h nofun

/-- **The chain has no more digits than a document can show.** -/
theorem Asks.natAbs_chain_lt (h : Asks s args i) : i.chain.natAbs < tenTo maxDigits := by
  obtain ⟨settings, hsettings, h⟩ := h
  obtain ⟨common, -, h⟩ := bind_eq_ok.mp h
  obtain ⟨⟨command, own⟩, -, h⟩ := bind_eq_ok.mp h
  simp only [throw_eq_error] at h
  split at h
  · exact absurd h nofun
  · cases h
    show (((own.value? chainParameter.name).bind readInteger?).getD settings.chain).natAbs < _
    cases hread : (own.value? chainParameter.name).bind readInteger? with
    | none =>
      unfold Surroundings.settings at hsettings
      exact natAbs_chain_lt_of_variables hsettings
    | some n =>
      obtain ⟨text, -, hn⟩ := Option.bind_eq_some_iff.mp hread
      exact natAbs_lt_of_readInteger? hn

/-! ## Endings -/

theorem run_of_asks (h : Asks s args i) (stdin : String) :
    run s stdin args = (execute s stdin i).map .finished := by
  obtain ⟨settings, hsettings, hi⟩ := h
  unfold run
  rw [hsettings, ok_bind, hi]
  show (execute s stdin i >>= fun result => .ok (Ending.finished result)) = _
  cases execute s stdin i <;> rfl

/-- A command without a document reports the fault or passes it on. -/
theorem run_of_fault (h : Asks s args i) {fault : Fault} (hfault : document s stdin i = .error fault) :
    run s stdin args = if isReported fault then .ok (.finished ⟨2, "", faultLine fault⟩)
      else .error fault := by
  rw [run_of_asks h, execute, hfault, error_bind]
  dsimp only
  split <;> rfl

/-- Bad data are not reported. -/
theorem run_of_data (h : Asks s args i) {cause : DataFault}
    (hfault : document s stdin i = .error (.data cause)) : run s stdin args = .error (.data cause) :=
  (run_of_fault h hfault).trans (if_neg Bool.false_ne_true)

/-- A command with a document prints it. -/
theorem run_of_document (h : Asks s args i) {d : Value} (hd : document s stdin i = .ok d)
    {text : String} (htext : Json.document d = .ok text) :
    run s stdin args = .ok (.finished ⟨0, text ++ "\n", ""⟩) := by
  rw [run_of_asks h, execute, hd, ok_bind, htext]
  rfl

/-- If the document cannot be printed, nothing is. -/
theorem run_of_unprintable (h : Asks s args i) {d : Value} (hd : document s stdin i = .ok d)
    (hprint : ¬ d.IsPrintable) : run s stdin args = .error (.data .wrongKind) := by
  have hfault : Json.document d = .error (.data .wrongKind) :=
    (Json.document_cases d).elim (fun hcase => absurd hcase.1 hprint) And.right
  rw [run_of_asks h, execute, hd, ok_bind, hfault]
  rfl

/-- Without a contracts file the registry is the built-in one. -/
theorem registryAt_none (s : Surroundings) : s.registryAt none = .ok Registry.builtInRegistry :=
  Registry.load_none

/-! ## Bare surroundings -/

/-- Surroundings without variables and files. -/
def bare : Surroundings where
  env := []
  read path := .error (.file (.notFound path))

/-- The printed form of a document; nothing if it has none. -/
def printed (d : Value) : String :=
  match Json.document d with
  | .ok text => text
  | .error _ => ""

/-- What stands on the standard input in printed form is loaded. -/
theorem load_printed {d : Value} (hd : d.IsDocument) : load s (printed d) standardInput = .ok d := by
  obtain ⟨text, htext⟩ := Json.exists_document_iff.mpr hd.isPrintable
  have hprinted : printed d = text := by rw [printed, htext]
  rw [load, if_pos rfl, hprinted]
  exact (Json.read_document hd htext).1

/-- The invocation that decodes the standard input. -/
def decoding : Invocation := ⟨"INFO", none, 1, .decode standardInput⟩

/-- The invocation that encodes the standard input. -/
def encoding : Invocation := ⟨"INFO", none, 1, .encode standardInput⟩

/-- A command with one option that names the standard input stands behind all other options. -/
theorem scan_common (h : args = ["decode", "--proposal", "-"] ∨ args = ["encode", "--actions", "-"]) :
    scan commonParameters true args = .ok { words := args } := by
  rcases h with rfl | rfl
  · have hpieces : classifyAll (helpName :: commonParameters.map (·.name)) ["decode", "--proposal", "-"] =
        .ok [("decode", .word), ("--proposal", .unknown), ("-", .word)] := rfl
    rw [scan, hpieces, ok_bind, scanPieces]
    rfl
  · have hpieces : classifyAll (helpName :: commonParameters.map (·.name)) ["encode", "--actions", "-"] =
        .ok [("encode", .word), ("--actions", .unknown), ("-", .word)] := rfl
    rw [scan, hpieces, ok_bind, scanPieces]
    rfl

theorem asks_decoding : Asks bare ["decode", "--proposal", "-"] decoding := by
  have hpieces : classifyAll (helpName :: [chainParameter, proposalParameter].map (·.name))
      ["--proposal", "-"] = .ok [("--proposal", .option "--proposal".toList none), ("-", .word)] := rfl
  have hscan : scanOptions [proposalParameter] ["--proposal", "-"] =
      .ok { values := [("--proposal".toList, ['-'])] } := by
    rw [scanOptions, scan, hpieces, ok_bind, scanPieces, if_neg (by decide)]
    rfl
  refine ⟨{}, rfl, ?_⟩
  rw [Invocation.ofArguments, scan_common (.inl rfl), ok_bind]
  simp only [commandOf, hscan, ok_bind]
  rfl

theorem asks_encoding : Asks bare ["encode", "--actions", "-"] encoding := by
  have hpieces : classifyAll (helpName :: [chainParameter, actionsParameter].map (·.name))
      ["--actions", "-"] = .ok [("--actions", .option "--actions".toList none), ("-", .word)] := rfl
  have hscan : scanOptions [actionsParameter] ["--actions", "-"] =
      .ok { values := [("--actions".toList, ['-'])] } := by
    rw [scanOptions, scan, hpieces, ok_bind, scanPieces, if_neg (by decide)]
    rfl
  refine ⟨{}, rfl, ?_⟩
  rw [Invocation.ofArguments, scan_common (.inr rfl), ok_bind]
  simp only [commandOf, hscan, ok_bind]
  rfl

end Proposals.CommandLine
