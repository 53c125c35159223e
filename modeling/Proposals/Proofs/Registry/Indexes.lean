import Proposals.Proofs.Registry.Entries

/-!
# `Proofs.Registry.Indexes` — what is found by name and what is found by address

The two indexes of a chain are set side by side, and each keeps the last entry under its own key. At the
address of what is found by name there is always an entry to find. The other way about there is one gap: an
entry whose name is given to a later one at another address (`IsMoved`) is still found at its old address,
from where its name leads to the later one (`indexesAgree_iff_not_isMoved`, `not_indexesAgree`). Where each name
is given once, there is no such entry (`not_isMoved_of_nodup`).
-/

namespace Proposals.Registry

open Proposals.Outcome

variable {id : Int} {table : List (Int × List Contract)} {r : Registry} {c : Contract}

/-! ## Entries that lose their names -/

/-- The contract is the last one at its address, and its name is given to a later one. -/
def IsMoved (c : Contract) (cs : List Contract) : Prop :=
  ∃ before after, cs = before ++ c :: after ∧ (∀ d ∈ after, d.address ≠ c.address) ∧
    ∃ d ∈ after, d.name = c.name

/-- No name is moved where each is given once. -/
theorem not_isMoved_of_nodup {cs : List Contract} (h : (cs.map (·.name)).Nodup) (c : Contract) :
    ¬ IsMoved c cs := by
  rintro ⟨before, after, rfl, -, d, hd, hname⟩
  rw [List.map_append, List.map_cons] at h
  have hfresh : c.name ∉ after.map (·.name) := (List.nodup_cons.mp (List.nodup_append.mp h).2.1).1
  exact hfresh (List.mem_map.mpr ⟨d, hd, hname⟩)

/-- The last contract of a moved name is a later one. -/
theorem IsMoved.lastWith?_ne {cs : List Contract} (h : IsMoved c cs) :
    lastWith? (·.name) c.name cs ≠ some c := by
  obtain ⟨before, after, rfl, hafter, d, hd, hname⟩ := h
  intro hlast
  obtain ⟨later, hlater⟩ := exists_lastWith? (·.name) hd
  rw [hname] at hlater
  rw [← List.singleton_append, ← List.append_assoc, lastWith?_append, hlater, Option.some_or] at hlast
  obtain rfl := Option.some.inj hlast
  exact hafter later (mem_of_lastWith? hlater).1 rfl

/-- **The last contract at an address is the last one of its name, unless the name is moved.** -/
theorem lastWith?_name_iff {cs : List Contract} (h : lastWith? (·.address) c.address cs = some c) :
    lastWith? (·.name) c.name cs = some c ↔ ¬ IsMoved c cs := by
  refine ⟨fun hname hmoved => hmoved.lastWith?_ne hname, fun hmoved => ?_⟩
  obtain ⟨-, before, after, hsplit, hafter⟩ := lastWith?_eq_some_iff.mp h
  refine lastWith?_eq_some_iff.mpr ⟨rfl, before, after, hsplit, fun d hd hsame => ?_⟩
  exact hmoved ⟨before, after, hsplit, hafter, d, hd, hsame⟩

/-! ## From addresses to names and back -/

/-- What is found by address is an entry at this address, in normal form. -/
theorem exists_of_identify? (h : ofEntries table = .ok r) {address : Value}
    (hc : r.identify? id address = some c) :
    (∃ text, address = .text text ∧ addressOfText? text = some c.address) ∧
      lastWith? (·.address) c.address (entriesOn id table) = some c := by
  obtain ⟨text, rfl⟩ := text_of_identify? hc
  rw [identify?_of_ofEntries h] at hc
  obtain ⟨a, ha, hlast⟩ := Option.bind_eq_some_iff.mp hc
  obtain rfl := (mem_of_lastWith? hlast).2
  exact ⟨⟨text, rfl, ha⟩, hlast⟩

/-- At the address of an entry an entry is found. -/
theorem exists_identify? (h : ofEntries table = .ok r) (hc : c ∈ entriesOn id table) :
    ∃ d ∈ entriesOn id table, d.address = c.address ∧ r.identify? id (.text c.address) = some d := by
  obtain ⟨d, hd⟩ := exists_lastWith? (·.address) hc
  obtain ⟨hmem, haddress⟩ := mem_of_lastWith? hd
  have hnormal : addressOfText? c.address = some c.address := isNormalAddress_of_mem_entriesOn hc
  refine ⟨d, hmem, haddress, ?_⟩
  rw [identify?_of_ofEntries h, hnormal]
  exact hd

/-- **The two indexes agree, but for entries whose names are moved.** What is found by address has this
    address in normal form, and an entry is found by its name, which is the same one exactly if the name is
    not moved. What is found by name has this name, and an entry is found at its address. Chains may stand in
    the table more than once, and so may names and addresses. -/
theorem indexesAgree_iff_not_isMoved (h : ofEntries table = .ok r) (id : Int) :
    (∀ address c, r.identify? id address = some c →
      (∃ text, address = .text text ∧ addressOfText? text = some c.address) ∧
      ∃ d ∈ entriesOn id table, r.lookup? id c.name = some d ∧
        (d = c ↔ ¬ IsMoved c (entriesOn id table))) ∧
    ∀ name c, r.lookup? id name = some c →
      c.name = name ∧
      ∃ d ∈ entriesOn id table, d.address = c.address ∧ r.identify? id (.text c.address) = some d := by
  refine ⟨fun address c hc => ?_, fun name c hc => ?_⟩
  · obtain ⟨htext, hlast⟩ := exists_of_identify? h hc
    obtain ⟨d, hd⟩ := exists_lastWith? (·.name) (mem_of_lastWith? hlast).1
    refine ⟨htext, d, (mem_of_lastWith? hd).1, (lookup?_of_ofEntries h id c.name).trans hd, ?_⟩
    rw [← lastWith?_name_iff hlast, hd, Option.some.injEq]
  · rw [lookup?_of_ofEntries h] at hc
    obtain ⟨hmem, hname⟩ := mem_of_lastWith? hc
    exact ⟨hname, exists_identify? h hmem⟩

/-- Where each name is given once, what is found by address is found by its name. -/
theorem lookup?_of_identify? (h : ofEntries table = .ok r)
    (hnames : ((entriesOn id table).map (·.name)).Nodup) {address : Value}
    (hc : r.identify? id address = some c) : r.lookup? id c.name = some c := by
  obtain ⟨-, hlast⟩ := exists_of_identify? h hc
  rw [lookup?_of_ofEntries h]
  exact (lastWith?_name_iff hlast).mpr (not_isMoved_of_nodup hnames c)

/-- A payer, before it is given another address. -/
def oldPayer : Contract := ⟨"payer", "0x1111111111111111111111111111111111111111", []⟩

def newPayer : Contract := ⟨"payer", "0x3333333333333333333333333333333333333333", []⟩

def vault : Contract := ⟨"vault", "0x2222222222222222222222222222222222222222", []⟩

/-- A chain that stands in the table twice, and the payer with it. -/
def movedEntries : List (Int × List Contract) := [(1, [oldPayer, vault]), (1, [newPayer])]

theorem isMoved_oldPayer : IsMoved oldPayer (entriesOn 1 movedEntries) :=
  ⟨[], [vault, newPayer], rfl, by decide, newPayer, by simp, rfl⟩

/-- The vault is found both ways; from the old address of the payer its name leads away. -/
theorem indexesAgree_iff_not_isMoved_payer :
    ∃ r, ofEntries movedEntries = .ok r ∧
      (r.identify? 1 (.text vault.address) = some vault ∧ r.lookup? 1 vault.name = some vault) ∧
      r.identify? 1 (.text oldPayer.address) = some oldPayer ∧
      ∃ d, r.lookup? 1 oldPayer.name = some d ∧ d ≠ oldPayer := by
  obtain ⟨r, hr⟩ : ∃ r, ofEntries movedEntries = .ok r := ⟨_, rfl⟩
  have hvault : r.identify? 1 (.text vault.address) = some vault := identify?_of_ofEntries hr 1 _
  have hpayer : r.identify? 1 (.text oldPayer.address) = some oldPayer := identify?_of_ofEntries hr 1 _
  have hnotMoved : ¬ IsMoved vault (entriesOn 1 movedEntries) := (lastWith?_name_iff rfl).mp rfl
  obtain ⟨-, c, -, hc, hsame⟩ := (indexesAgree_iff_not_isMoved hr 1).1 _ _ hvault
  obtain ⟨-, d, -, hd, hmoved⟩ := (indexesAgree_iff_not_isMoved hr 1).1 _ _ hpayer
  obtain rfl := hsame.mpr hnotMoved
  exact ⟨r, hr, ⟨hvault, hc⟩, hpayer, d, hd, fun h => hmoved.mp h isMoved_oldPayer⟩

/-- **What is found by address need not be what its name leads to:** the payer moves. -/
theorem not_indexesAgree :
    ¬ ∀ (table : List (Int × List Contract)) (r : Registry) (id : Int), ofEntries table = .ok r →
      (∀ address c, r.identify? id address = some c →
        (∃ text, address = .text text ∧ addressOfText? text = some c.address) ∧
        r.lookup? id c.name = some c) ∧
      ∀ name c, r.lookup? id name = some c →
        ∃ d ∈ entriesOn id table, d.address = c.address ∧ r.identify? id (.text c.address) = some d := by
  intro h
  have hfound := ((h movedEntries _ 1 rfl).1 (.text oldPayer.address) oldPayer rfl).2
  have hsame : newPayer = oldPayer := Option.some.inj hfound
  exact absurd (congrArg Contract.address hsame) (by decide)

end Proposals.Registry
