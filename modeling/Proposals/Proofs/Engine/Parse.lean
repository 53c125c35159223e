import Proposals.Engine
import Proposals.Proofs.Codec

/-!
# `Proofs.Engine.Parse` — reading a proposal and writing it

The engine reads a raw transaction with the first codec that accepts it and writes a transaction with
the codec of its kind. What one codec reads it writes in normal form, and codecs do not tell a raw
transaction from its normal form; hence the order in which codecs are tried does not matter for the
round trip (`unparseOne_parseOne`).
-/

namespace Proposals.Engine

open Proposals.Codec Proposals.Outcome

/-! ## The first codec that accepts -/

theorem firstParsed_sound {ctx : Context} {raw : RawTransaction} {codecs : List TransactionKind}
    {kind : TransactionKind} {t : Transaction} (h : firstParsed ctx raw codecs = .ok (kind, t)) :
    kind ∈ codecs ∧ parseAs kind ctx raw = .ok (some t) := by
  induction codecs with
  | nil => exact absurd h (by simp [firstParsed])
  | cons first codecs ih =>
    obtain ⟨o, ho, h⟩ := bind_eq_ok.mp h
    cases o with
    | none =>
      obtain ⟨hmem, hparse⟩ := ih h
      exact ⟨List.mem_cons_of_mem _ hmem, hparse⟩
    | some u =>
      cases h
      exact ⟨List.mem_cons_self, ho⟩

/-- The same codec is the first to accept the normal form. -/
theorem firstParsed_normal {raw normal : RawTransaction} (hnormal : IsNormalOf raw normal)
    {ctx : Context} {codecs : List TransactionKind} {found : TransactionKind × Transaction}
    (h : firstParsed ctx raw codecs = .ok found) : firstParsed ctx normal codecs = .ok found := by
  induction codecs with
  | nil => exact absurd h (by simp [firstParsed])
  | cons first codecs ih =>
    obtain ⟨o, ho, h⟩ := bind_eq_ok.mp h
    unfold firstParsed
    rw [parseAs_normal hnormal ho, ok_bind]
    cases o with
    | none => exact ih h
    | some u => exact h

/-! ## One transaction -/

/-- What the engine knows after it has read a raw transaction: the transaction is readable, and writing
    it gives the normal form of the raw one, which is read as the same transaction. -/
structure ReadsBack (e : Engine) (chain : Int) (raw : RawTransaction) (t : Transaction) : Prop where
  readable : t.IsReadable
  written : ∃ normal, IsNormalOf raw normal ∧ e.unparseOne chain t = .ok normal ∧
    ∃ log, e.parseOne chain normal = .ok (t, log)

theorem readsBack_of_parseOne {e : Engine} {chain : Int} {raw : RawTransaction} {t : Transaction}
    {log : Log} (hsound : (e.registry.chain chain).IsSound) (hvalue : raw.value.IsNatural)
    (h : e.parseOne chain raw = .ok (t, log)) : e.ReadsBack chain raw t := by
  obtain ⟨⟨kind, u⟩, hfound, h⟩ := bind_eq_ok.mp h
  cases h
  obtain ⟨hmem, hparse⟩ := firstParsed_sound hfound
  obtain ⟨hkind, hreadable, normal, hnormal, hwritten⟩ := reads_of_parseAs hsound hvalue hparse
  refine ⟨hreadable, normal, hnormal, ?_, ?_⟩
  · unfold unparseOne
    rw [hkind]
    show (if kind ∈ e.codecs then _ else _) = _
    rw [if_pos hmem]
    exact hwritten
  · unfold parseOne
    rw [firstParsed_normal hnormal hfound]
    exact ⟨_, rfl⟩

theorem isInRange_of_parseOne {e : Engine} {chain : Int} {raw : RawTransaction} {t : Transaction}
    {log : Log} (hsound : (e.registry.chain chain).IsSound) (hvalue : raw.value.IsAmount)
    (h : e.parseOne chain raw = .ok (t, log)) : t.IsInRange := by
  obtain ⟨⟨kind, u⟩, hfound, h⟩ := bind_eq_ok.mp h
  cases h
  exact isInRange_of_parseAs hsound hvalue (firstParsed_sound hfound).2

/-- The lists and the registry are those that the engine is made with. -/
theorem registry_of_make {codecs : List TransactionKind} {handlers : List ActionKind}
    {registry : Registry} {e : Engine} (h : make codecs handlers registry = .ok e) :
    e = ⟨codecs, handlers, registry⟩ := by
  unfold make at h
  split at h
  · exact absurd h (by simp)
  · split at h
    · exact absurd h (by simp)
    · exact (Except.ok.inj h).symm

/-! ## Whole proposals -/

theorem parse_cons_eq_ok {e : Engine} {chain : Int} {raw : RawTransaction} {raws : List RawTransaction}
    {ts : List Transaction} {log : Log} (h : e.parse chain (raw :: raws) = .ok (ts, log)) :
    ∃ t us, ts = t :: us ∧ (∃ line, e.parseOne chain raw = .ok (t, line)) ∧
      ∃ lines, e.parse chain raws = .ok (us, lines) := by
  obtain ⟨⟨t, line⟩, hone, h⟩ := bind_eq_ok.mp h
  obtain ⟨⟨us, lines⟩, hrest, h⟩ := bind_eq_ok.mp h
  cases h
  exact ⟨t, us, rfl, ⟨line, hone⟩, lines, hrest⟩

theorem readsBack_of_parse {e : Engine} {chain : Int} {raws : List RawTransaction}
    {ts : List Transaction} {log : Log} (hsound : (e.registry.chain chain).IsSound)
    (hvalues : ∀ raw ∈ raws, raw.value.IsNatural) (h : e.parse chain raws = .ok (ts, log)) :
    ∀ t ∈ ts, ∃ raw, e.ReadsBack chain raw t := by
  induction raws generalizing ts log with
  | nil => cases h; exact fun t ht => absurd ht (by simp)
  | cons raw raws ih =>
    obtain ⟨t, us, rfl, ⟨line, hone⟩, lines, hrest⟩ := parse_cons_eq_ok h
    have hread := readsBack_of_parseOne hsound (hvalues raw List.mem_cons_self) hone
    have hreads := ih (fun raw' hraw' => hvalues raw' (List.mem_cons_of_mem _ hraw')) hrest
    exact fun u hu => (List.mem_cons.mp hu).elim (fun heq => heq ▸ ⟨raw, hread⟩) (hreads u)

/-- Values in range are read as such. -/
theorem isInRange_of_parse {e : Engine} {chain : Int} {raws : List RawTransaction}
    {ts : List Transaction} {log : Log} (hsound : (e.registry.chain chain).IsSound)
    (hvalues : ∀ raw ∈ raws, raw.value.IsAmount) (h : e.parse chain raws = .ok (ts, log)) :
    ∀ t ∈ ts, t.IsInRange := by
  induction raws generalizing ts log with
  | nil => cases h; exact fun t ht => absurd ht (by simp)
  | cons raw raws ih =>
    obtain ⟨t, us, rfl, ⟨line, hone⟩, lines, hrest⟩ := parse_cons_eq_ok h
    have hrange := isInRange_of_parseOne hsound (hvalues raw List.mem_cons_self) hone
    have hranges := ih (fun raw' hraw' => hvalues raw' (List.mem_cons_of_mem _ hraw')) hrest
    exact fun u hu => (List.mem_cons.mp hu).elim (fun heq => heq ▸ hrange) (hranges u)

/-- Transactions that can be written and read one by one can be written and read together. -/
theorem parse_unparse {e : Engine} {chain : Int} {ts : List Transaction}
    (h : ∀ t ∈ ts, ∃ raw, e.unparseOne chain t = .ok raw ∧
      ∃ line, e.parseOne chain raw = .ok (t, line)) :
    ∃ raws, e.unparse chain ts = .ok raws ∧ ∃ log, e.parse chain raws = .ok (ts, log) := by
  induction ts with
  | nil => exact ⟨[], rfl, [], rfl⟩
  | cons t ts ih =>
    obtain ⟨raw, hwritten, line, hread⟩ := h t List.mem_cons_self
    obtain ⟨raws, hraws, log, hlog⟩ := ih fun u hu => h u (List.mem_cons_of_mem _ hu)
    refine ⟨raw :: raws, ?_, line ++ log, ?_⟩
    · unfold unparse at hraws ⊢
      rw [List.mapM_cons, hwritten, ok_bind, hraws]
      rfl
    · unfold parse
      rw [hread, ok_bind, hlog]
      rfl

/-! ## A payment -/

/-- A proposal with one payment by the payer, with capital digits, a name for each parameter and a
    short form. -/
def paymentProposal : Wire where
  targets := [.text "0xD97bCD9f47cEE35c0a9ec1dc40c1269afc9e8e1d"]
  values := [.text "0"]
  signatures := [.text "sendOrRegisterDebt(address account, uint amount)"]
  calldatas := [.text ("0x0000000000000000000000000FD206FC7A7DBCD5661157EDCB1FFDD0D02A61FF" ++
    "00000000000000000000000000000000000000000000000000000000000F4240")]

/-- The raw transaction of that proposal. -/
def payment : RawTransaction where
  target := .text "0xD97bCD9f47cEE35c0a9ec1dc40c1269afc9e8e1d"
  signature := .text "sendOrRegisterDebt(address account, uint amount)"
  calldata := .text ("0x0000000000000000000000000FD206FC7A7DBCD5661157EDCB1FFDD0D02A61FF" ++
    "00000000000000000000000000000000000000000000000000000000000F4240")
  value := .int 0

/-- What the payment does. -/
def paymentRead : Transaction :=
  .usdcTransferViaPayer (.text "0x0fd206fc7a7dbcd5661157edcb1ffdd0d02a61ff") (.int 1000000)

set_option maxRecDepth 2000 in
theorem fromWire_paymentProposal : fromWire paymentProposal = .ok [payment] := rfl

set_option maxRecDepth 20000 in
theorem parseOne_payment :
    ∃ log, (standard Registry.builtInRegistry).parseOne 1 payment = .ok (paymentRead, log) := ⟨_, rfl⟩

theorem make_standard (registry : Registry) :
    make defaultCodecs Handler.defaultHandlers registry = .ok (standard registry) := rfl

/-! ## The round trip -/

/-- **Writing undoes reading, up to the normal form**, and the normal form is read as the same
    transaction: with any registry that keeps the well-known functions, any list of codecs and any
    chain, for every raw transaction of a proposal that the engine reads. -/
theorem unparseOne_parseOne {entries : List (Int × List Contract)} {registry : Registry}
    (hentries : Registry.AreConforming entries) (hregistry : Registry.ofEntries entries = .ok registry)
    {codecs : List TransactionKind} {handlers : List ActionKind} {e : Engine}
    (he : make codecs handlers registry = .ok e) {w : Wire} {raws : List RawTransaction}
    (hraws : fromWire w = .ok raws) {raw : RawTransaction} (hraw : raw ∈ raws) {chain : Int}
    {t : Transaction} {log : Log} (hparse : e.parseOne chain raw = .ok (t, log)) :
    ∃ normal, raw.normalForm = .ok normal ∧ e.unparseOne chain t = .ok normal ∧
      ∃ log', e.parseOne chain normal = .ok (t, log') := by
  have hsound : (e.registry.chain chain).IsSound := by
    rw [registry_of_make he]
    exact Registry.isSound_of_ofEntries hentries hregistry chain
  obtain ⟨-, normal, hnormal, hwritten, hagain⟩ :=
    readsBack_of_parseOne hsound (isAmount_of_fromWire hraws hraw).isNatural hparse
  exact ⟨normal, hnormal.normalForm_eq, hwritten, hagain⟩

/-- The payment is read, written in normal form and read again. -/
theorem unparseOne_parseOne_payment :
    fromWire paymentProposal = .ok [payment] ∧
      ∃ log, (standard Registry.builtInRegistry).parseOne 1 payment = .ok (paymentRead, log) ∧
      ∃ normal, payment.normalForm = .ok normal ∧
        (standard Registry.builtInRegistry).unparseOne 1 paymentRead = .ok normal ∧
        ∃ log', (standard Registry.builtInRegistry).parseOne 1 normal = .ok (paymentRead, log') := by
  obtain ⟨log, hparse⟩ := parseOne_payment
  exact ⟨fromWire_paymentProposal, log, hparse, unparseOne_parseOne Registry.areConforming_builtInEntries
    Registry.builtIn_eq_ok (make_standard _) fromWire_paymentProposal List.mem_cons_self hparse⟩

end Proposals.Engine
