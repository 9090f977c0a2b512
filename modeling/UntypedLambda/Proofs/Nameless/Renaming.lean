import UntypedLambda.Proofs.Nameless.Alpha
import UntypedLambda.Proofs.Nameless.Substitution

/-!
# Renamed parameters and substitutions in a row

A parameter is renamed together with what it binds, and the new name is refused
if it occurs in the abstraction.  A name that is not refused cannot be captured,
so the abstraction stays what it was up to its parameter.

Two substitutions in a row can be exchanged, if the later one is also made in the
term that the earlier one puts in.  On terms with names this holds up to bound
names only: the two sides rename parameters at different times and come to
different names.  Both sides change what the term is read as at the same two
names, and the order of the two changes does not matter.

## Main results

* `alphaRename_eq_ok_iff`, `alphaRename_eq_error_iff`: when a parameter can be
  renamed.
* `nameless_of_alphaRename`: a renamed abstraction is the same up to bound names.
* `subst_subst_alphaEq`: the substitution lemma.
-/

namespace UntypedLambda.Term

open Function (update)

/-! ## Renaming a parameter -/

/-- A parameter is renamed exactly if it is the one to be renamed and the new
name does not occur. -/
theorem alphaRename_eq_ok_iff {t u : Term} {old new : Name} :
    t.alphaRename old new = .ok u ↔
      ∃ b, t = abs old b ∧ new ∉ t.names ∧ u = abs new (b.rename old new) := by
  cases t with
  | var x => simp [alphaRename]
  | app f a => simp [alphaRename]
  | abs x b =>
      unfold alphaRename
      dsimp only
      by_cases hx : x = old
      · subst hx
        by_cases hnew : new ∈ (abs x b).names
        · simp [hnew]
        · simp [hnew, eq_comm]
      · simp [hx]

/-- A parameter cannot be renamed if it is not the one to be renamed, or if the
new name occurs. -/
theorem alphaRename_eq_error_iff (t : Term) (old new : Name) :
    (∃ e, t.alphaRename old new = .error e) ↔
      (¬ ∃ b, t = abs old b) ∨ new ∈ t.names := by
  cases hrename : t.alphaRename old new with
  | ok u =>
      obtain ⟨b, hb, hnew, -⟩ := alphaRename_eq_ok_iff.1 hrename
      simp [hb, hb ▸ hnew]
  | error e =>
      simp only [Except.error.injEq, exists_eq', true_iff]
      by_contra hboth
      rw [not_or, not_not] at hboth
      obtain ⟨⟨b, hb⟩, hnew⟩ := hboth
      have hok := alphaRename_eq_ok_iff.2 ⟨b, hb, hnew, rfl⟩
      rw [hrename] at hok
      cases hok

/-- An abstraction over a renamed parameter is the same up to bound names. -/
theorem nameless_of_alphaRename {t u : Term} {old new : Name}
    (h : t.alphaRename old new = .ok u) : u.nameless = t.nameless := by
  obtain ⟨b, rfl, hnew, rfl⟩ := alphaRename_eq_ok_iff.1 h
  rw [names, List.mem_cons, not_or] at hnew
  exact congrArg Nameless.abs (namelessWithin_renameParam [] hnew.2)

theorem mem_freeNames_of_alphaRename {t u : Term} {old new : Name}
    (h : t.alphaRename old new = .ok u) (z : Name) :
    z ∈ u.freeNames ↔ z ∈ t.freeNames := by
  rw [← mem_freeNames_nameless, nameless_of_alphaRename h, mem_freeNames_nameless]

/-! ## Two substitutions in a row -/

/-- **The substitution lemma.**  Two substitutions in a row can be exchanged up to
bound names, if the second is also made in the term that the first one puts in,
and does not bring in the name that the first one replaces. -/
theorem subst_subst_alphaEq {x y : Name} {l : Term} (hxy : x ≠ y)
    (hx : x ∉ l.freeNames) (m n : Term) :
    (subst y l (subst x n m)).alphaEq
      (subst x (subst y l n) (subst y l m)) = true := by
  have houter : ∀ v, l.readBy (update .free x v) = l.readBy .free := by
    intro v
    refine readBy_congr fun z hz => ?_
    have hzx : z ≠ x := fun heq => hx (heq ▸ hz)
    exact Function.update_of_ne hzx _ _
  rw [alphaEq_iff, nameless_eq_readBy, nameless_eq_readBy]
  simp only [readBy_subst, houter]
  rw [Function.update_comm hxy]

/-- On the left, the name that the first substitution makes fresh clashes with the
second one and is made fresh again. -/
theorem subst_subst_alphaEq_renamed :
    let m := app (abs "z" (var "x")) (var "y")
    let n := var "z"
    let l := var "z'"
    let left := subst "y" l (subst "x" n m)
    let right := subst "x" (subst "y" l n) (subst "y" l m)
    "x" ≠ "y" ∧ "x" ∉ l.freeNames ∧
      left = app (abs "z''" (var "z")) (var "z'") ∧
      right = app (abs "z'" (var "z")) (var "z'") ∧
      left.alphaEq right = true := by
  intro m n l left right
  have hxy : "x" ≠ "y" := by decide
  have hx : "x" ∉ l.freeNames := by decide
  have hleft : left = app (abs "z''" (var "z")) (var "z'") := by
    show subst "y" (var "z'") (subst "x" (var "z")
      (app (abs "z" (var "x")) (var "y"))) = _
    cbv
  have hright : right = app (abs "z'" (var "z")) (var "z'") := by
    show subst "x" (subst "y" (var "z'") (var "z")) (subst "y" (var "z'")
      (app (abs "z" (var "x")) (var "y"))) = _
    cbv
  exact ⟨hxy, hx, hleft, hright, subst_subst_alphaEq hxy hx m n⟩

end UntypedLambda.Term
