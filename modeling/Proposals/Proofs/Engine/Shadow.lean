import Proposals.Proofs.Call
import Proposals.Proofs.Engine.Authoring

/-!
# `Proofs.Engine.Shadow` — which transactions another codec takes

Every codec reads what it writes. The engine need not: it tries codecs in order, and some that come
early read raw transactions that a later one has written. `Transaction.IsTakenBy` lists these overlaps,
and `parseOne_unparseOne` shows that the list is complete and has nothing in it that does not happen.

Only the two codecs of calls with typed inputs and that of transfers are general enough to write what an
earlier codec reads. For a call, each earlier codec is asked in turn (`firstParsed_of_earlier`).
-/

namespace Proposals

open Proposals.Abi Proposals.Codec Proposals.Outcome Proposals.Text

/-! ## Well-formed transactions -/

/-- Calldata in base sixteen, with the mark and at least one byte. -/
def Value.IsNonemptyCalldata (v : Value) : Prop :=
  ∃ c digits, v = .text c ∧ c.toList = '0' :: 'x' :: digits ∧ digits.all isHexDigit = true ∧
    digits.length % 2 = 0 ∧ digits ≠ []

/-- The transaction has accounts in normal form, numbers in range, a token that streams can carry,
    calldata and calls that can be read. What carries a value by its kind has one. -/
def Transaction.IsWellFormed : Transaction → Prop
  | .payerTopUp value => value.IsAmount
  | .transfer target value => target.IsAccount ∧ value.IsAmount
  | .usdcTransferViaPayer receiver amount => receiver.IsAccount ∧ amount.IsAmount
  | .usdcApproval spender amount => spender.IsAccount ∧ amount.IsAmount
  | .wethDeposit value => value.IsAmount
  | .wethTransfer receiver amount => receiver.IsAccount ∧ amount.IsAmount
  | .wethApproval spender amount => spender.IsAccount ∧ amount.IsAmount
  | .stream s => s.IsReadable ∧ ∃ n : Nat, s.nonce = .int n ∧ n ≤ 255
  | .treasuryNounTransfer receiver nounId => receiver.IsAccount ∧ nounId.IsAmount
  | .unparsedPayableFunctionCall target calldata value =>
    target.IsAccount ∧ calldata.IsNonemptyCalldata ∧ value.IsAmount ∧ value ≠ .int 0
  | .unparsedFunctionCall target calldata => target.IsAccount ∧ calldata.IsNonemptyCalldata
  | .payableFunctionCall call value => call.IsWellFormed ∧ value.IsAmount ∧ value ≠ .int 0
  | .functionCall call => call.IsWellFormed
  | .foreign => False

theorem FunctionCall.IsWellFormed.isAccount_target {call : FunctionCall} (h : call.IsWellFormed) :
    call.target.IsAccount := by
  obtain ⟨target, name, types, inputs, htyped⟩ := h
  rw [htyped.eq]
  exact ⟨target, rfl, htyped.account⟩

/-- Well-formed transactions are readable. -/
theorem Transaction.IsWellFormed.isReadable {t : Transaction} (h : t.IsWellFormed) : t.IsReadable := by
  cases t with
  | payerTopUp value => exact Value.IsAmount.isNatural h
  | transfer target value => exact ⟨h.1, h.2.isNatural⟩
  | wethDeposit value => exact Value.IsAmount.isNatural h
  | stream s => exact h.1
  | unparsedPayableFunctionCall target calldata value => exact ⟨h.1, h.2.2.1.isNatural⟩
  | unparsedFunctionCall target calldata => exact h.1
  | payableFunctionCall call value => exact ⟨h.1.isAccount_target, h.2.1.isNatural⟩
  | functionCall call => exact FunctionCall.IsWellFormed.isAccount_target h
  | _ => exact h

/-- What is written for the transaction is read by the codec of the kind, which is another one: a
    transfer to the token buyer is a top-up, a call of a known function is read as that, and with a
    value only a deposit is. -/
def Transaction.IsTakenBy (kind : TransactionKind) : Transaction → Prop
  | .transfer target _ => kind = .payerTopUp ∧ target = .text tokenBuyer
  | .functionCall call => call.IsKnownAs kind
  | .payableFunctionCall call _ => kind = .wethDeposit ∧ call.IsCallOf .wethDeposit
  | _ => False

/-- Another codec reads what is written for the transaction. -/
def Transaction.IsShadowed (t : Transaction) : Prop := ∃ kind, t.IsTakenBy kind

namespace Engine

/-! ## The first codec that accepts -/

/-- If each earlier codec says whether it reads the raw transaction, the first that does is found, and
    it is the later one just if none of the earlier ones does. -/
theorem firstParsed_of_earlier {ctx : Context} {raw : RawTransaction}
    {earlier : List TransactionKind} (later : List TransactionKind) {kind : TransactionKind}
    {t : Transaction} {takes : TransactionKind → Prop}
    (hearlier : ∀ k ∈ earlier, ∃ o, parseAs k ctx raw = .ok o ∧ (o.isSome = true ↔ takes k))
    (h : parseAs kind ctx raw = .ok (some t)) :
    ∃ k u, firstParsed ctx raw (earlier ++ kind :: later) = .ok (k, u) ∧
      ((k = kind ∧ u = t ∧ ∀ k ∈ earlier, ¬ takes k) ∨
        (k ∈ earlier ∧ takes k ∧ parseAs k ctx raw = .ok (some u))) := by
  induction earlier with
  | nil =>
    refine ⟨kind, t, ?_, .inl ⟨rfl, rfl, fun k hk => absurd hk (by simp)⟩⟩
    rw [List.nil_append]
    unfold firstParsed
    rw [h]; rfl
  | cons first earlier ih =>
    obtain ⟨hfirst, hrest⟩ := List.forall_mem_cons.mp hearlier
    obtain ⟨o, ho, htakes⟩ := hfirst
    rw [List.cons_append]
    unfold firstParsed
    rw [ho, ok_bind]
    cases o with
    | some u => exact ⟨first, u, rfl, .inr ⟨List.mem_cons_self, htakes.mp rfl, ho⟩⟩
    | none =>
      obtain ⟨k, u, hfound, hk⟩ := ih hrest
      refine ⟨k, u, hfound, hk.imp ?_ ?_⟩
      · rintro ⟨rfl, rfl, hnone⟩
        exact ⟨rfl, rfl, List.forall_mem_cons.mpr ⟨fun hk => absurd (htakes.mpr hk) (by simp), hnone⟩⟩
      · rintro ⟨hmem, htake, hparse⟩
        exact ⟨List.mem_cons_of_mem _ hmem, htake, hparse⟩

/-! ## Each kind -/

/-- The codec of the kind reads what it writes for the transaction, and the engine reads it as the same
    transaction unless another codec takes it. -/
structure ComesBack (kind : TransactionKind) (t : Transaction) (raw : RawTransaction) : Prop where
  isKind : t.kind? = some kind
  written : unparseAs kind mainnet t = .ok raw
  read : parseAs kind mainnet raw = .ok (some t)
  engine : ∃ u log, mainnetEngine.parseOne 1 raw = .ok (u, log) ∧ (u = t ↔ ¬ t.IsShadowed)

variable {kind : TransactionKind} {t : Transaction} {raw : RawTransaction}

theorem comesBack_of_isWritten (hkind : t.kind? = some kind)
    (hwritten : unparseAs kind mainnet t = .ok raw) (h : IsWritten kind t raw)
    (hfree : ¬ t.IsShadowed) : ComesBack kind t raw := by
  obtain ⟨log, hlog⟩ := parseOne_of_isWritten h
  exact ⟨hkind, hwritten, h.read, t, log, hlog, iff_of_true rfl hfree⟩

/-- A call with a receiver and an amount is written. -/
theorem exists_unparsePair {contract function first second : String}
    (hcall : knownCall? kind =
      some ⟨contract, ⟨function, ["address", "uint256"]⟩, [.address, .uint 256]⟩)
    {receiver amount : Value} (hreceiver : receiver.IsAccount) (hamount : amount.IsAmount)
    (hfields : t.field first = .ok receiver ∧ t.field second = .ok amount) :
    ∃ raw, unparsePair contract function first second mainnet t = .ok raw := by
  obtain ⟨c, hc⟩ := exists_isAt hcall
  obtain ⟨raw, hraw⟩ := exists_encodeCall hc.offers [receiver, amount]
    ⟨_, _, rfl, hreceiver, _, _, rfl, isCanonical_amount hamount, rfl⟩ (.int 0)
  refine ⟨raw, ?_⟩
  unfold unparsePair
  rw [hfields.1, hfields.2, resolve_of_lookup? hc.found]
  exact hraw

theorem exists_comesBack_pair {contract function first second : String}
    (hcall : knownCall? kind =
      some ⟨contract, ⟨function, ["address", "uint256"]⟩, [.address, .uint 256]⟩)
    {make : Value → Value → Transaction} {receiver amount : Value} (hreceiver : receiver.IsAccount)
    (hamount : amount.IsAmount) (hkind : (make receiver amount).kind? = some kind)
    (hreadable : (make receiver amount).IsReadable)
    (hfields : (make receiver amount).field first = .ok receiver ∧
      (make receiver amount).field second = .ok amount)
    (hparse : ∀ raw, parseAs kind mainnet raw = parsePair contract function make mainnet raw)
    (hunparse : ∀ t, unparseAs kind mainnet t =
      unparsePair contract function first second mainnet t)
    (hfree : ¬ (make receiver amount).IsShadowed) :
    ∃ raw, ComesBack kind (make receiver amount) raw := by
  obtain ⟨raw, hraw⟩ := exists_unparsePair hcall hreceiver hamount hfields
  obtain ⟨-, hcalls, hread⟩ := unparsePair_sound kind hcall hreceiver hfields hraw
  exact ⟨raw, comesBack_of_isWritten hkind ((hunparse _).trans hraw)
    ⟨hreadable, hcalls, (hparse raw).trans hread⟩ hfree⟩

theorem exists_comesBack_wethDeposit {value : Value} (hvalue : value.IsAmount) :
    ∃ raw, ComesBack .wethDeposit (.wethDeposit value) raw := by
  have hcall : knownCall? .wethDeposit = some ⟨"weth-token", ⟨"deposit", []⟩, []⟩ := rfl
  obtain ⟨c, hc⟩ := exists_isAt hcall
  obtain ⟨raw, hraw⟩ := exists_encodeCall hc.offers [] rfl value
  have hwritten : unparseWethDeposit mainnet (.wethDeposit value) = .ok raw := by
    show (mainnet.resolve "weth-token" >>= _) = _
    rw [resolve_of_lookup? hc.found]
    exact hraw
  exact ⟨raw, comesBack_of_isWritten rfl hwritten (isWritten_wethDeposit hvalue hwritten) nofun⟩

theorem exists_comesBack_stream {s : Stream} (hs : s.IsReadable) {nonce : Nat}
    (hnonce : s.nonce = .int nonce) (hlimit : nonce ≤ 255) :
    ∃ raw, ComesBack .stream (.stream s) raw := by
  obtain ⟨call, hcall⟩ : ∃ call, knownCall? .stream = some call := ⟨_, rfl⟩
  obtain ⟨c, hc⟩ := exists_isAt hcall
  obtain ⟨name, token, hname, htoken, haddress⟩ : ∃ name token, streamToken s.token = .ok name ∧
      mainnet.resolve name = .ok token ∧ IsNormalAddress token.address := by
    rcases hs.token with h | h <;> rw [h] <;> exact ⟨_, _, rfl, rfl, rfl⟩
  obtain ⟨raw, hraw⟩ := exists_encodeStream hcall hc.offers hs hnonce hlimit haddress
  have hfactory : mainnet.resolve "stream-factory" = .ok c := by
    cases hcall
    exact resolve_of_lookup? hc.found
  have hwritten : unparseStream mainnet (.stream s) = .ok raw :=
    (unparseStream_eq hname htoken hfactory).trans hraw
  exact ⟨raw, comesBack_of_isWritten rfl hwritten
    (isWritten_stream hs.receiver hs.token hs.contract hwritten) nofun⟩

theorem exists_comesBack_treasuryNounTransfer {receiver nounId : Value}
    (hreceiver : receiver.IsAccount) (hnounId : nounId.IsAmount) :
    ∃ raw, ComesBack .treasuryNounTransfer (.treasuryNounTransfer receiver nounId) raw := by
  have hcall : knownCall? .treasuryNounTransfer = some ⟨"token",
      ⟨"safeTransferFrom", ["address", "address", "uint256"]⟩, [.address, .address, .uint 256]⟩ := rfl
  obtain ⟨c, hc⟩ := exists_isAt hcall
  obtain ⟨executor, hexecutor⟩ :
      ∃ executor, mainnet.registry.lookup? mainnet.chain "executor" = some executor := ⟨_, rfl⟩
  obtain ⟨-, haddress, -⟩ := isSound_mainnet.named _ executor hexecutor
  obtain ⟨raw, hraw⟩ := exists_encodeCall hc.offers [.text executor.address, receiver, nounId]
    ⟨_, _, rfl, ⟨_, rfl, haddress⟩, _, _, rfl, hreceiver, _, _, rfl, isCanonical_amount hnounId, rfl⟩
    (.int 0)
  have hwritten : unparseTreasuryNounTransfer mainnet (.treasuryNounTransfer receiver nounId) =
      .ok raw := by
    show (mainnet.resolve "executor" >>= _) = _
    rw [resolve_of_lookup? hexecutor, ok_bind, resolve_of_lookup? hc.found]
    exact hraw
  exact ⟨raw, comesBack_of_isWritten rfl hwritten
    (isWritten_treasuryNounTransfer hreceiver hwritten) nofun⟩

/-! ### Transfers and unread calldata -/

theorem exists_comesBack_payerTopUp {value : Value} :
    ∃ raw, ComesBack .payerTopUp (.payerTopUp value) raw := by
  have hbuyer : IsNormalAddress tokenBuyer := rfl
  have hread : parseAs .payerTopUp mainnet ⟨.text tokenBuyer, .text "", .text "0x", value⟩ =
      .ok (some (.payerTopUp value)) := parsePayerTopUp_transfer hbuyer value
  obtain ⟨log, hlog⟩ := parseOne_of_earlier .payerTopUp (fun k hk => absurd hk (by decide +revert)) hread
  exact ⟨_, rfl, rfl, hread, _, log, hlog, iff_of_true rfl nofun⟩

theorem exists_comesBack_transfer {target value : Value} (htarget : target.IsAccount) :
    ∃ raw, ComesBack .transfer (.transfer target value) raw := by
  obtain ⟨log, hlog⟩ := parseOne_transfer htarget value
  obtain ⟨a, rfl, ha⟩ := htarget
  refine ⟨_, rfl, rfl, parseTransfer_transfer ha value, _, log, hlog, ?_⟩
  have hshadow : (Transaction.transfer (.text a) value).IsShadowed ↔ a = tokenBuyer :=
    ⟨fun ⟨_, _, h⟩ => Value.text.inj h, fun h => ⟨.payerTopUp, rfl, congrArg Value.text h⟩⟩
  rw [hshadow, asRead_transfer]
  by_cases h : a = tokenBuyer
  · rw [if_pos (isText_eq_true.mpr (congrArg Value.text h))]
    exact iff_of_false nofun fun hne => hne h
  · rw [if_neg (mt isText_eq_true.mp fun heq => h (Value.text.inj heq))]
    exact iff_of_true rfl h

/-- Without a signature no known call is matched. -/
theorem matchesCall_of_unsigned {call : KnownCall} {c : Contract} (hc : IsAt call c)
    (h : raw.signature = .text "") :
    matchesCall mainnet call.contract call.signature.name raw = .ok false := by
  have hunsigned : signaturesMatch (.text "") (.text call.signature.text) = .ok false := rfl
  unfold matchesCall
  rw [hc.found, h]
  simp only [hc.signed, ok_bind, hunsigned]
  split <;> rfl

/-- Before the codecs of calldata without signature, nothing reads it. -/
theorem parseAs_of_isUnparsed (hsignature : raw.signature = .text "") (hunparsed : isUnparsed raw = true)
    {k : TransactionKind} (hk : k = .payerTopUp ∨ k = .transfer ∨ (knownCall? k).isSome = true) :
    parseAs k mainnet raw = .ok none := by
  have hnative : raw.isNativeTransfer = false := by
    rw [isUnparsed, Bool.and_eq_true, Bool.not_eq_true'] at hunparsed
    rw [RawTransaction.isNativeTransfer, hunparsed.2, Bool.and_false]
  rcases hk with rfl | rfl | hk
  · exact (parseAs_of_not_isNativeTransfer mainnet hnative).1
  · exact (parseAs_of_not_isNativeTransfer mainnet hnative).2
  · obtain ⟨call, hcall⟩ := Option.isSome_iff_exists.mp hk
    obtain ⟨c, hc⟩ := exists_isAt hcall
    exact parseAs_unmatched hcall (matchesCall_of_unsigned hc hsignature)

theorem isUnparsed_of_isNonemptyCalldata {target calldata value : Value}
    (h : calldata.IsNonemptyCalldata) : isUnparsed ⟨target, .text "", calldata, value⟩ = true := by
  obtain ⟨c, digits, rfl, hdigits, -, -, hne⟩ := h
  have hmark : (Value.text c).isText "0x" = false := by
    refine Bool.eq_false_iff.mpr fun heq => hne ?_
    rw [Value.text.inj (isText_eq_true.mp heq)] at hdigits
    exact (List.cons.inj (List.cons.inj hdigits).2).2.symm
  simp only [isUnparsed, hmark]
  rfl

theorem exists_comesBack_unparsedPayable {target calldata value : Value} (htarget : target.IsAccount)
    (hcalldata : calldata.IsNonemptyCalldata) (hvalue : value.isZero = false) :
    ∃ raw, ComesBack .unparsedPayableFunctionCall
      (.unparsedPayableFunctionCall target calldata value) raw := by
  have hunparsed : isUnparsed ⟨target, .text "", calldata, value⟩ = true :=
    isUnparsed_of_isNonemptyCalldata hcalldata
  have hread : parseUnparsedPayable mainnet ⟨target, .text "", calldata, value⟩ =
      .ok (some (.unparsedPayableFunctionCall target calldata value)) := by
    unfold parseUnparsedPayable
    simp only [hunparsed, hvalue, addressOf_of_isAccount htarget, ok_bind]
    rfl
  have hearlier : ∀ k ∈ earlierCodecs .unparsedPayableFunctionCall,
      k = .payerTopUp ∨ k = .transfer ∨ (knownCall? k).isSome = true := by decide
  obtain ⟨log, hlog⟩ := parseOne_of_earlier .unparsedPayableFunctionCall
    (fun k hk => parseAs_of_isUnparsed rfl hunparsed (hearlier k hk)) hread
  exact ⟨_, rfl, rfl, hread, _, log, hlog, iff_of_true rfl nofun⟩

theorem exists_comesBack_unparsed {target calldata : Value} (htarget : target.IsAccount)
    (hcalldata : calldata.IsNonemptyCalldata) :
    ∃ raw, ComesBack .unparsedFunctionCall (.unparsedFunctionCall target calldata) raw := by
  have hunparsed : isUnparsed ⟨target, .text "", calldata, .int 0⟩ = true :=
    isUnparsed_of_isNonemptyCalldata hcalldata
  have hpayable : parseUnparsedPayable mainnet ⟨target, .text "", calldata, .int 0⟩ = .ok none := by
    unfold parseUnparsedPayable
    rw [hunparsed]
    rfl
  have hread : parseUnparsed mainnet ⟨target, .text "", calldata, .int 0⟩ =
      .ok (some (.unparsedFunctionCall target calldata)) := by
    unfold parseUnparsed
    simp only [hunparsed, addressOf_of_isAccount htarget, ok_bind]
    rfl
  have hearlier : ∀ k ∈ earlierCodecs .unparsedFunctionCall, k = .unparsedPayableFunctionCall ∨
      k = .payerTopUp ∨ k = .transfer ∨ (knownCall? k).isSome = true := by decide
  obtain ⟨log, hlog⟩ := parseOne_of_earlier .unparsedFunctionCall
    (fun k hk => (hearlier k hk).elim (fun heq => heq ▸ hpayable)
      fun hk => parseAs_of_isUnparsed rfl hunparsed hk) hread
  exact ⟨_, rfl, rfl, hread, _, log, hlog, iff_of_true rfl nofun⟩

/-! ### Calls -/

/-- A signed call is no transfer and has no unread calldata. -/
theorem parseAs_signed {target : String} {s : Signature} {inputs : List Value}
    (h : IsRawOf target s inputs raw) {k : TransactionKind}
    (hk : k = .payerTopUp ∨ k = .transfer ∨ k = .unparsedPayableFunctionCall ∨
      k = .unparsedFunctionCall) : parseAs k mainnet raw = .ok none := by
  have hnative := parseAs_of_not_isNativeTransfer mainnet
    (isNativeTransfer_of_signatureOf h.signatureOf_eq)
  have hparsed : isUnparsed raw = false := by
    rw [isUnparsed, not_isText_of_signatureOf h.signatureOf_eq, Bool.false_and]
  rcases hk with rfl | rfl | rfl | rfl
  · exact hnative.1
  · exact hnative.2
  · show parseUnparsedPayable mainnet raw = .ok none
    unfold parseUnparsedPayable
    rw [hparsed]
    rfl
  · show parseUnparsed mainnet raw = .ok none
    unfold parseUnparsed
    rw [hparsed]
    rfl

/-- The engine reads a call as itself unless an earlier codec takes it. -/
theorem parseOne_of_takes (kind : TransactionKind) (hvalue : raw.value.IsAmount)
    (hread : parseAs kind mainnet raw = .ok (some t)) (hkind : t.kind? = some kind)
    (hearlier : ∀ k ∈ earlierCodecs kind, ∃ o, parseAs k mainnet raw = .ok o ∧
      (o.isSome = true ↔ t.IsTakenBy k))
    (htaken : ∀ k, t.IsTakenBy k → k ∈ earlierCodecs kind) :
    ∃ u log, mainnetEngine.parseOne 1 raw = .ok (u, log) ∧ (u = t ↔ ¬ t.IsShadowed) := by
  obtain ⟨later, hsplit⟩ := exists_codecs kind
  obtain ⟨k, u, hfound, hk⟩ := firstParsed_of_earlier later hearlier hread
  obtain ⟨log, hlog⟩ := parseOne_of_firstParsed (hsplit ▸ hfound)
  refine ⟨u, log, hlog, ?_⟩
  rcases hk with ⟨-, rfl, hnone⟩ | ⟨hmem, htakes, hparse⟩
  · exact iff_of_true rfl fun ⟨k', hk'⟩ => hnone k' (htaken k' hk') hk'
  · refine iff_of_false (fun hsame => ?_) fun hfree => hfree ⟨k, htakes⟩
    -- what an earlier codec reads is of its own kind
    have hkind' := (reads_of_parseAs isSound_mainnet hvalue.isNatural hparse).isKind
    rw [hsame, hkind, Option.some.injEq] at hkind'
    subst hkind'
    exact absurd (List.mem_takeWhile_imp hmem) (by simp)

/-- The codecs of known calls are tried before those of other calls. -/
theorem mem_earlierCodecs_of_known : ∀ k ∈ TransactionKind.all, (knownCall? k).isSome →
    k ∈ earlierCodecs .functionCall ∧ k ∈ earlierCodecs .payableFunctionCall := by decide

theorem exists_comesBack_functionCall {call : FunctionCall} (hcall : call.IsWellFormed) :
    ∃ raw, ComesBack .functionCall (.functionCall call) raw := by
  obtain ⟨target, name, types, inputs, htyped⟩ := hcall
  obtain ⟨raw, hwritten, hvalue, hraw⟩ := exists_unparseCall htyped (.inl rfl) (.int 0)
  have hcall : call = callOf target ⟨name, types⟩ inputs := htyped.eq
  have hsigned : raw.signature.isText "" = false :=
    not_isText_of_signatureOf hraw.signatureOf_eq
  have hread : parseFunctionCall mainnet raw = .ok (some (.functionCall call)) := by
    unfold parseFunctionCall
    rw [hsigned, hvalue, parseCall_of_isRawOf hraw, ← hcall]
    rfl
  have hpayable : parsePayableCall mainnet raw = .ok none := by
    unfold parsePayableCall
    rw [hsigned, hvalue]
    rfl
  have hknown : ∀ {k}, call.IsKnownAs k → (knownCall? k).isSome = true := by
    rintro k ⟨⟨known, -, hknown, -⟩, -⟩
    rw [hknown]; rfl
  have hkinds : ∀ k ∈ earlierCodecs .functionCall, (knownCall? k).isSome = true ∨
      knownCall? k = none ∧ (k = .payableFunctionCall ∨ k = .payerTopUp ∨ k = .transfer ∨
        k = .unparsedPayableFunctionCall ∨ k = .unparsedFunctionCall) := by decide
  refine ⟨raw, rfl, hwritten, hread, parseOne_of_takes .functionCall ⟨0, hvalue, Nat.zero_le _⟩
    hread rfl
    (fun k hk => ?_) fun k hk => (mem_earlierCodecs_of_known k k.mem_all (hknown hk)).1⟩
  rcases hkinds k hk with hsome | ⟨hnone, hk⟩
  · obtain ⟨known, hsome⟩ := Option.isSome_iff_exists.mp hsome
    obtain ⟨o, ho, htakes⟩ := parseAs_known hsome hraw hvalue
    exact ⟨o, ho, hcall ▸ htakes⟩
  · refine ⟨none, ?_, iff_of_false (by simp) fun htaken => ?_⟩
    · rcases hk with rfl | hk
      · exact hpayable
      · exact parseAs_signed hraw hk
    · have hsome := hknown htaken
      rw [hnone] at hsome
      exact absurd hsome (by simp)

theorem exists_comesBack_payableFunctionCall {call : FunctionCall} {value : Value}
    (hcall : call.IsWellFormed) (hamount : value.IsAmount) (hvalue : value.isZero = false) :
    ∃ raw, ComesBack .payableFunctionCall (.payableFunctionCall call value) raw := by
  obtain ⟨target, name, types, inputs, htyped⟩ := hcall
  obtain ⟨raw, hwritten, rfl, hraw⟩ := exists_unparseCall htyped (.inr ⟨value, rfl⟩) value
  have hcall : call = callOf target ⟨name, types⟩ inputs := htyped.eq
  have hsigned : raw.signature.isText "" = false :=
    not_isText_of_signatureOf hraw.signatureOf_eq
  have hread : parsePayableCall mainnet raw = .ok (some (.payableFunctionCall call raw.value)) := by
    unfold parsePayableCall
    rw [hsigned, hvalue, parseCall_of_isRawOf hraw, ← hcall]
    rfl
  have hkinds : ∀ k ∈ earlierCodecs .payableFunctionCall, (knownCall? k).isSome = true ∨
      k ≠ .wethDeposit ∧ (k = .payerTopUp ∨ k = .transfer ∨
        k = .unparsedPayableFunctionCall ∨ k = .unparsedFunctionCall) := by decide
  refine ⟨raw, rfl, hwritten, hread, parseOne_of_takes .payableFunctionCall hamount
    hread rfl (fun k hk => ?_) ?_⟩
  · rcases hkinds k hk with hsome | ⟨hne, hk⟩
    · obtain ⟨known, hsome⟩ := Option.isSome_iff_exists.mp hsome
      obtain ⟨o, ho, htakes⟩ := parseAs_known_payable hsome hraw hvalue
      exact ⟨o, ho, hcall ▸ htakes⟩
    · exact ⟨none, parseAs_signed hraw hk, iff_of_false (by simp) fun htaken => hne htaken.1⟩
  · rintro k ⟨rfl, -⟩
    exact (mem_earlierCodecs_of_known _ (TransactionKind.mem_all _) rfl).2

/-! ## Every kind -/

theorem isZero_of_ne {value : Value} (h : value.IsAmount) (hne : value ≠ .int 0) :
    value.isZero = false := by
  refine Bool.eq_false_iff.mpr fun hzero => hne (h.isNatural.eq_zero hzero)

/-- Every well-formed transaction comes back. -/
theorem exists_comesBack (ht : t.IsWellFormed) : ∃ kind raw, ComesBack kind t raw := by
  cases t with
  | payerTopUp value => exact ⟨_, exists_comesBack_payerTopUp⟩
  | transfer target value => exact ⟨_, exists_comesBack_transfer ht.1⟩
  | usdcTransferViaPayer receiver amount =>
    exact ⟨_, exists_comesBack_pair rfl ht.1 ht.2 rfl ht ⟨rfl, rfl⟩ (fun _ => rfl) (fun _ => rfl) nofun⟩
  | usdcApproval spender amount =>
    exact ⟨_, exists_comesBack_pair rfl ht.1 ht.2 rfl ht ⟨rfl, rfl⟩ (fun _ => rfl) (fun _ => rfl) nofun⟩
  | wethDeposit value => exact ⟨_, exists_comesBack_wethDeposit ht⟩
  | wethTransfer receiver amount =>
    exact ⟨_, exists_comesBack_pair rfl ht.1 ht.2 rfl ht ⟨rfl, rfl⟩ (fun _ => rfl) (fun _ => rfl) nofun⟩
  | wethApproval spender amount =>
    exact ⟨_, exists_comesBack_pair rfl ht.1 ht.2 rfl ht ⟨rfl, rfl⟩ (fun _ => rfl) (fun _ => rfl) nofun⟩
  | stream s =>
    obtain ⟨hs, nonce, hnonce, hlimit⟩ := ht
    exact ⟨_, exists_comesBack_stream hs hnonce hlimit⟩
  | treasuryNounTransfer receiver nounId =>
    exact ⟨_, exists_comesBack_treasuryNounTransfer ht.1 ht.2⟩
  | unparsedPayableFunctionCall target calldata value =>
    obtain ⟨htarget, hcalldata, hamount, hne⟩ := ht
    exact ⟨_, exists_comesBack_unparsedPayable htarget hcalldata (isZero_of_ne hamount hne)⟩
  | unparsedFunctionCall target calldata => exact ⟨_, exists_comesBack_unparsed ht.1 ht.2⟩
  | payableFunctionCall call value =>
    obtain ⟨hcall, hamount, hne⟩ := ht
    exact ⟨_, exists_comesBack_payableFunctionCall hcall hamount (isZero_of_ne hamount hne)⟩
  | functionCall call => exact ⟨_, exists_comesBack_functionCall ht⟩
  | foreign => exact absurd ht (by simp [Transaction.IsWellFormed])

/-- Well-formed transactions that no other codec takes are written and read as themselves. -/
theorem exists_unparse_of_isWellFormed {ts : List Transaction}
    (hts : ∀ t ∈ ts, t.IsWellFormed ∧ ¬ t.IsShadowed) :
    ∃ raws, mainnetEngine.unparse 1 ts = .ok raws ∧
      ∃ log, mainnetEngine.parse 1 raws = .ok (ts, log) := by
  refine parse_unparse fun t ht => ?_
  obtain ⟨hformed, hfree⟩ := hts t ht
  obtain ⟨kind, raw, h⟩ := exists_comesBack hformed
  obtain ⟨u, log, hlog, hsame⟩ := h.engine
  exact ⟨raw, (unparseOne_eq h.isKind).trans h.written, log, hsame.mpr hfree ▸ hlog⟩

/-- **Reading undoes writing.** Every well-formed transaction is written, the codec of its kind reads it
    back, and the engine reads what was written as the same transaction unless another codec takes it. -/
theorem parseOne_unparseOne {t : Transaction} (ht : t.IsWellFormed) :
    ∃ kind raw, t.kind? = some kind ∧ unparseAs kind mainnet t = .ok raw ∧
      parseAs kind mainnet raw = .ok (some t) ∧ mainnetEngine.unparseOne 1 t = .ok raw ∧
      ∃ u log, mainnetEngine.parseOne 1 raw = .ok (u, log) ∧ (u = t ↔ ¬ t.IsShadowed) := by
  obtain ⟨kind, raw, h⟩ := exists_comesBack ht
  exact ⟨kind, raw, h.isKind, h.written, h.read, (unparseOne_eq h.isKind).trans h.written, h.engine⟩

/-- A deposit, put down as a call of any function. -/
def depositCall : FunctionCall :=
  ⟨.text "0xc02aaa39b223fe8d0a0e5c4f27ead9083c756cc2", .text "deposit", .list [], .list []⟩

/-- The call is written as well-formed calls are, and the codec of deposits takes it. -/
theorem parseOne_unparseOne_depositCall :
    (Transaction.functionCall depositCall).IsWellFormed ∧
      ∃ raw, mainnetEngine.unparseOne 1 (.functionCall depositCall) = .ok raw ∧
        parseAs .functionCall mainnet raw = .ok (some (.functionCall depositCall)) ∧
        ∃ u log, mainnetEngine.parseOne 1 raw = .ok (u, log) ∧ u ≠ .functionCall depositCall := by
  have hshort : ∀ calldata, encodeArguments ([].map Value.text) [] = .ok calldata →
      calldata.length < maxLength := by
    rintro calldata h
    obtain rfl : "0x" = calldata := Except.ok.inj h
    decide
  have hcall : depositCall.IsWellFormed :=
    ⟨_, _, [], [], rfl, rfl, rfl, nofun, ⟨[], ⟨[], rfl, rfl⟩, rfl⟩, hshort⟩
  have hshadowed : (Transaction.functionCall depositCall).IsShadowed :=
    ⟨.wethDeposit, ⟨_, _, rfl, rfl, rfl, rfl, rfl⟩, nofun, nofun⟩
  obtain ⟨kind, raw, hkind, -, hread, hwritten, u, log, hlog, hsame⟩ :=
    parseOne_unparseOne (t := .functionCall depositCall) hcall
  obtain rfl : TransactionKind.functionCall = kind := Option.some.inj hkind
  exact ⟨hcall, raw, hwritten, hread, u, log, hlog, fun heq => hsame.mp heq hshadowed⟩

end Engine

end Proposals
