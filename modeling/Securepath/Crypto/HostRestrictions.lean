import Securepath.Crypto.ChainValidation

/-!
# The order of the host restrictions

`is_subset_of` is a preorder of the restrictions whose equivalence is equality
up to letter case, with the restriction that restricts nothing on top. Two
restrictions have a lower bound of which both are part only if one of them is
below the other one, and that is the one that `merge` returns.
-/

namespace Securepath.Crypto.KeyCertRestriction

open Serialisation

variable {a b c : KeyCertRestriction}

/-- The octet `.`. -/
def dot : UInt8 := 0x2e

/-- Between `p` and `host` one label of a name ends and the next one begins. -/
def LabelBoundary (p host : Octets) : Prop :=
  p.getLast? = some dot ∨ host.head? = some dot

/-- The names are equal, or the left one ends with the right one at a label
boundary. -/
def EndsAtLabel (name host : Octets) : Prop :=
  name = host ∨ ∃ p, name = p ++ host ∧ LabelBoundary p host

/-! ## Names -/

/-- The suffix of the sub-domains is the name with a boundary in front of it. -/
theorem subDomainSuffix_suffix_iff (host name : Octets) :
    subDomainSuffix host <:+ name ↔ ∃ p, name = p ++ host ∧ LabelBoundary p host := by
  by_cases hdot : host.head? = some dot
  · -- the name has its dot already, so that any place before it is a boundary
    have hsuffix : subDomainSuffix host = host := if_pos hdot
    rw [hsuffix]
    constructor
    · rintro ⟨p, rfl⟩
      exact ⟨p, rfl, Or.inr hdot⟩
    · rintro ⟨p, rfl, -⟩
      exact List.suffix_append p host
  · have hsuffix : subDomainSuffix host = dot :: host := if_neg hdot
    rw [hsuffix]
    constructor
    · rintro ⟨p, rfl⟩
      refine ⟨p ++ [dot], by simp, Or.inl ?_⟩
      exact List.getLast?_concat
    · rintro ⟨p, rfl, hp | hhost⟩
      · obtain ⟨q, rfl⟩ := List.getLast?_eq_some_iff.mp hp
        exact ⟨q, by simp⟩
      · exact absurd hhost hdot

/-! ## The order -/

theorem isSubsetOf_refl (a : KeyCertRestriction) : a.isSubsetOf a = true :=
  isSubsetOf_iff.mpr (Or.inr (Or.inl rfl))

/-- Only the restriction that restricts nothing is above itself alone. -/
theorem hostname_eq_nil_of_isSubsetOf (h : a.isSubsetOf b = true) (ha : a.hostname = []) :
    b.hostname = [] := by
  by_contra hb
  exact hostname_ne_nil h hb ha

theorem length_toLower (s : Octets) : (toLower s).length = s.length := List.length_map _

/-- A name below another one is not shorter than it. -/
theorem length_le_of_isSubsetOf (h : a.isSubsetOf b = true) :
    b.hostname.length ≤ a.hostname.length := by
  rw [← length_toLower a.hostname, ← length_toLower b.hostname]
  rcases isSubsetOf_iff.mp h with hnil | heq | hsuffix
  · rw [hnil]
    exact Nat.zero_le _
  · exact (congrArg List.length heq).ge
  · exact ((suffix_subDomainSuffix _).trans hsuffix).length_le

theorem isSubsetOf_antisymm (hab : a.isSubsetOf b = true) (hba : b.isSubsetOf a = true) :
    toLower a.hostname = toLower b.hostname := by
  rcases isSubsetOf_iff.mp hab with hnil | heq | hsuffix
  · rw [hnil, hostname_eq_nil_of_isSubsetOf hba hnil]
  · exact heq
  · -- a suffix that is as long as the whole is the whole
    have hlength := length_le_of_isSubsetOf hba
    rw [← length_toLower a.hostname, ← length_toLower b.hostname] at hlength
    exact (((suffix_subDomainSuffix _).trans hsuffix).eq_of_length_le hlength).symm

theorem isSubsetOf_iff_endsAtLabel (hb : b.hostname ≠ []) : a.isSubsetOf b = true ↔
    EndsAtLabel (toLower a.hostname) (toLower b.hostname) := by
  rw [isSubsetOf_iff, subDomainSuffix_suffix_iff]
  exact or_iff_right hb

/-! ## Merging -/

theorem merge_eq_ok : merge a b = .ok c ↔ (a.isSubsetOf b = true ∧ c = a) ∨
    (a.isSubsetOf b = false ∧ b.isSubsetOf a = true ∧ c = b) := by
  unfold merge
  cases hab : a.isSubsetOf b
  · cases hba : b.isSubsetOf a
    · simp
    · simp [eq_comm (a := b) (b := c)]
  · simp [eq_comm (a := a) (b := c)]

/-- `merge` throws only one error. -/
theorem merge_eq_error : (∃ e, merge a b = .error e) ↔
    a.isSubsetOf b = false ∧ b.isSubsetOf a = false := by
  unfold merge
  cases hab : a.isSubsetOf b
  · cases hba : b.isSubsetOf a
    · simp
    · simp
  · simp

/-- What `merge` returns is below both. -/
theorem merge_isSubsetOf (h : merge a b = .ok c) :
    c.isSubsetOf a = true ∧ c.isSubsetOf b = true := by
  rcases merge_eq_ok.mp h with ⟨hab, rfl⟩ | ⟨-, hba, rfl⟩
  · exact ⟨isSubsetOf_refl c, hab⟩
  · exact ⟨hba, isSubsetOf_refl c⟩

/-- And everything below both is below it. -/
theorem isSubsetOf_merge {d : KeyCertRestriction} (h : merge a b = .ok c)
    (hda : d.isSubsetOf a = true) (hdb : d.isSubsetOf b = true) : d.isSubsetOf c = true := by
  rcases merge_eq_ok.mp h with ⟨-, rfl⟩ | ⟨-, -, rfl⟩
  · exact hda
  · exact hdb

/-- `is_subset_of` orders the restrictions, and `merge` returns the greatest one
below both, if `is_subset_of` can tell the two. -/
theorem restrictions_ordered (a b c : KeyCertRestriction) :
    a.isSubsetOf a = true ∧
    (a.isSubsetOf b = true → b.isSubsetOf c = true → a.isSubsetOf c = true) ∧
    (a.isSubsetOf b = true → b.isSubsetOf a = true →
      toLower a.hostname = toLower b.hostname) ∧
    (a.hostname ≠ [] → b.hostname ≠ [] →
      (a.isSubsetOf b = true ↔ EndsAtLabel (toLower a.hostname) (toLower b.hostname))) ∧
    ((∃ e, merge a b = .error e) ↔ ¬ a.isSubsetOf b = true ∧ ¬ b.isSubsetOf a = true) ∧
    (merge a b = .ok c → c.isSubsetOf a = true ∧ c.isSubsetOf b = true ∧
      ∀ d : KeyCertRestriction, d.isSubsetOf a = true → d.isSubsetOf b = true →
        d.isSubsetOf c = true) := by
  refine ⟨isSubsetOf_refl a, isSubsetOf_trans, isSubsetOf_antisymm,
    fun _ hb => isSubsetOf_iff_endsAtLabel hb, ?_, ?_⟩
  · rw [merge_eq_error, Bool.not_eq_true, Bool.not_eq_true]
  · intro h
    obtain ⟨hca, hcb⟩ := merge_isSubsetOf h
    exact ⟨hca, hcb, fun d => isSubsetOf_merge h⟩

end Securepath.Crypto.KeyCertRestriction
