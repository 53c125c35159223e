import Proposals.Proofs.Codec.Overlap
import Proposals.Proofs.Handler.Pool

/-!
# `Proofs.Engine.CodecOrder` — the order of codecs matters only where they overlap by design

The engine takes what the first codec says that claims a raw transaction. In another order of the codecs
another one may be first; but two codecs that claim the same raw transaction overlap by design, and then
both orders keep the special one in front, or fail with the same fault. So every order that keeps the
pairs of `overlaps` reads every raw transaction as the default order does (`parseOne_of_perm`).
-/

namespace Proposals.Engine

open Proposals.Codec Proposals.Handler Proposals.Outcome

variable {ctx : Context} {raw : RawTransaction} {codecs codecs' earlier later : List TransactionKind}
  {kind kind' : TransactionKind}

/-! ## The first codec that claims -/

/-- A codec that claims the raw transaction decides alone when it is the first to do so. -/
theorem firstParsed_of_first (hearlier : ∀ k ∈ earlier, ¬ Claims ctx raw k) (h : Claims ctx raw kind) :
    firstParsed ctx raw (earlier ++ kind :: later) = firstParsed ctx raw [kind] := by
  induction earlier with
  | nil =>
    rw [List.nil_append, firstParsed, firstParsed]
    rcases hparse : parseAs kind ctx raw with f | - | t
    · rfl
    · exact absurd hparse h
    · rfl
  | cons k earlier ih =>
    have hnone : parseAs k ctx raw = .ok none := not_not.mp (hearlier k List.mem_cons_self)
    rw [List.cons_append, firstParsed, hnone, ok_bind]
    exact ih fun k' hk' => hearlier k' (List.mem_cons_of_mem _ hk')

/-- If none claims it, it is not recognized. -/
theorem firstParsed_of_none (h : ∀ k ∈ codecs, ¬ Claims ctx raw k) :
    firstParsed ctx raw codecs = .error (.unrecognized (.raw raw.target raw.signature)) := by
  induction codecs with
  | nil => rfl
  | cons k codecs ih =>
    have hnone : parseAs k ctx raw = .ok none := not_not.mp (h k List.mem_cons_self)
    rw [firstParsed, hnone, ok_bind]
    exact ih fun k' hk' => h k' (List.mem_cons_of_mem _ hk')

/-- Either no codec claims the raw transaction, or one is the first to do so. -/
theorem none_or_first (ctx : Context) (raw : RawTransaction) (codecs : List TransactionKind) :
    (∀ k ∈ codecs, ¬ Claims ctx raw k) ∨
      ∃ earlier kind later, codecs = earlier ++ kind :: later ∧
        (∀ k ∈ earlier, ¬ Claims ctx raw k) ∧ Claims ctx raw kind := by
  induction codecs with
  | nil => exact .inl fun k hk => absurd hk (by simp)
  | cons k codecs ih =>
    by_cases hk : Claims ctx raw k
    · exact .inr ⟨[], k, codecs, rfl, fun k' hk' => absurd hk' (by simp), hk⟩
    · rcases ih with hnone | ⟨earlier, kind, later, rfl, hearlier, hkind⟩
      · exact .inl (List.forall_mem_cons.mpr ⟨hk, hnone⟩)
      · exact .inr ⟨k :: earlier, kind, later, rfl, List.forall_mem_cons.mpr ⟨hk, hearlier⟩, hkind⟩

theorem ne_of_mem_overlaps : ∀ p ∈ overlaps, p.1 ≠ p.2 := by decide

/-- The special codec of an overlap claims the raw transaction first. -/
theorem not_claims_of_overlap (hnodup : (earlier ++ kind' :: later).Nodup)
    (hpairs : ∀ p ∈ overlaps, [p.1, p.2].Sublist (earlier ++ kind' :: later))
    (hearlier : ∀ k ∈ earlier, ¬ Claims ctx raw k) (hover : (kind, kind') ∈ overlaps) :
    ¬ Claims ctx raw kind := by
  intro h
  have hrest : [kind, kind'].Sublist (kind' :: later) :=
    sublist_of_not_mem (fun hmem => hearlier kind hmem h) (hpairs (kind, kind') hover)
  have hfirst : kind ≠ kind' := ne_of_mem_overlaps (kind, kind') hover
  -- behind the first codec the other one does not come again
  rcases List.sublist_cons_iff.mp hrest with hlater | ⟨rest, heq, -⟩
  · have hmem : kind' ∈ later := hlater.subset (by simp)
    exact (List.nodup_cons.mp (List.nodup_append.mp hnodup).2.1).1 hmem
  · exact hfirst (List.cons.inj heq).1

/-- **Two orders that keep the overlaps read a raw transaction alike**, as the same transaction or with
    the same fault. -/
theorem firstParsed_of_perm {chain : Int} (hperm : codecs.Perm codecs') (hnodup : codecs.Nodup)
    (hpairs : ∀ p ∈ overlaps, [p.1, p.2].Sublist codecs)
    (hpairs' : ∀ p ∈ overlaps, [p.1, p.2].Sublist codecs') :
    firstParsed (builtInContext chain) raw codecs = firstParsed (builtInContext chain) raw codecs' := by
  rcases none_or_first (builtInContext chain) raw codecs with
    hnone | ⟨earlier, kind, later, rfl, hearlier, hkind⟩
  · rw [firstParsed_of_none hnone, firstParsed_of_none fun k hk => hnone k (hperm.mem_iff.mpr hk)]
  · rcases none_or_first (builtInContext chain) raw codecs' with
      hnone' | ⟨earlier', kind', later', rfl, hearlier', hkind'⟩
    · exact absurd hkind (hnone' kind (hperm.mem_iff.mp (by simp)))
    · rw [firstParsed_of_first hearlier hkind, firstParsed_of_first hearlier' hkind']
      rcases overlap_of_claims hkind hkind' with rfl | hover | hover | ⟨f, hf, hf'⟩
      · rfl
      · exact absurd hkind (not_claims_of_overlap (hperm.nodup_iff.mp hnodup) hpairs' hearlier' hover)
      · exact absurd hkind' (not_claims_of_overlap hnodup hpairs hearlier hover)
      · unfold firstParsed
        rw [hf, hf']
        rfl

/-! ## Engines -/

theorem firstDuplicate?_eq_none {α : Type} [DecidableEq α] {seen entries : List α}
    (hnodup : entries.Nodup) (hseen : ∀ a ∈ entries, a ∉ seen) : firstDuplicate? seen entries = none := by
  induction entries generalizing seen with
  | nil => rfl
  | cons a entries ih =>
    obtain ⟨ha, hnodup⟩ := List.nodup_cons.mp hnodup
    rw [firstDuplicate?, if_neg (hseen a List.mem_cons_self)]
    refine ih hnodup fun b hb hmem => ?_
    rcases List.mem_cons.mp hmem with rfl | hmem
    · exact ha hb
    · exact hseen b (List.mem_cons_of_mem _ hb) hmem

theorem nodup_defaultCodecs : defaultCodecs.Nodup := by decide

theorem overlaps_defaultCodecs : ∀ p ∈ overlaps, [p.1, p.2].Sublist defaultCodecs := by decide

/-- **The order of codecs matters only where they overlap by design.** With the built-in registry, let the
    codecs be in any order that keeps top-ups in front of transfers, and the codecs of well-known
    functions in front of those of other signed calls. Then the engine reads every raw transaction on
    every chain as the engine with the default order does: as the same transaction, or with the same
    fault. -/
theorem parseOne_of_perm (hperm : codecs.Perm defaultCodecs)
    (hpairs : ∀ p ∈ overlaps, [p.1, p.2].Sublist codecs) :
    ∃ e, make codecs defaultHandlers Registry.builtInRegistry = .ok e ∧ ∀ chain raw,
      e.parseOne chain raw = (standard Registry.builtInRegistry).parseOne chain raw := by
  have hnodup : codecs.Nodup := hperm.nodup_iff.mpr nodup_defaultCodecs
  refine ⟨⟨codecs, defaultHandlers, Registry.builtInRegistry⟩, ?_, fun chain raw => ?_⟩
  · unfold make
    rw [firstDuplicate?_eq_none hnodup fun _ _ => List.not_mem_nil]
    rfl
  · exact congrArg (· >>= _) (firstParsed_of_perm hperm hnodup hpairs overlaps_defaultCodecs)

/-- The codecs with the general ones in front, as far as the overlaps allow it. -/
def generalFirst : List TransactionKind :=
  [.unparsedFunctionCall, .unparsedPayableFunctionCall, .treasuryNounTransfer, .stream, .wethApproval,
    .wethTransfer, .wethDeposit, .usdcApproval, .usdcTransferViaPayer, .functionCall,
    .payableFunctionCall, .payerTopUp, .transfer]

/-- They read like those in the default order. -/
theorem parseOne_of_perm_generalFirst :
    generalFirst.Perm defaultCodecs ∧ (∀ p ∈ overlaps, [p.1, p.2].Sublist generalFirst) ∧
      ∃ e, make generalFirst defaultHandlers Registry.builtInRegistry = .ok e ∧ ∀ chain raw,
        e.parseOne chain raw = (standard Registry.builtInRegistry).parseOne chain raw :=
  ⟨by decide, by decide, parseOne_of_perm (by decide) (by decide)⟩

end Proposals.Engine
