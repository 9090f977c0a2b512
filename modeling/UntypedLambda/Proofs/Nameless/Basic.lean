import UntypedLambda.Term.Basic

/-!
# Nameless terms

A nameless term keeps the names of free occurrences only.  A bound occurrence
is an index: the number of abstractions between it and the one it belongs to.
Two terms with names have the same nameless form exactly if they differ in
nothing but the names of their parameters, so a law about terms that holds up
to these names is an equation here.

Indices are replaced in parallel.  `rename ξ` sends the index `i` to `ξ i`,
and `subst σ` puts `σ i` in its place; below an abstraction both leave index
`0` alone and act on the others one level up.  The four composition laws say
that two replacements in a row are one.

## Main results

* `subst_subst`: two substitutions in a row are one.
* `instantiate_subst`: substitution commutes with the contraction of a redex.
* `replaceNames_rename`: what has no dangling index can be put in place of
  free names before or after the indices are renamed.
* `mem_freeNames_subst`: a substitution brings in no free names but those of
  what it puts in.
-/

namespace UntypedLambda

/-- A term whose bound occurrences are indices: `bound i` belongs to the
abstraction `i` levels out. -/
inductive Nameless where
  | bound (index : Nat)
  | free (name : Name)
  | abs (body : Nameless)
  | app (fn arg : Nameless)
  deriving DecidableEq

namespace Nameless

/-! ## Renaming and substitution of indices -/

def liftIndex (ξ : Nat → Nat) : Nat → Nat
  | 0 => 0
  | i + 1 => ξ i + 1

def rename : (Nat → Nat) → Nameless → Nameless
  | ξ, bound i => bound (ξ i)
  | _, free x => free x
  | ξ, abs b => abs (b.rename (liftIndex ξ))
  | ξ, app f a => app (f.rename ξ) (a.rename ξ)

def shift (t : Nameless) : Nameless := t.rename Nat.succ

def liftSubst (σ : Nat → Nameless) : Nat → Nameless
  | 0 => bound 0
  | i + 1 => (σ i).shift

def subst : (Nat → Nameless) → Nameless → Nameless
  | σ, bound i => σ i
  | _, free x => free x
  | σ, abs b => abs (b.subst (liftSubst σ))
  | σ, app f a => app (f.subst σ) (a.subst σ)

/-- Put `a` for the innermost dangling index, and take the others one level
out. -/
def single (a : Nameless) : Nat → Nameless
  | 0 => a
  | i + 1 => bound i

/-- What the abstraction with the body `b` makes of the argument `a`. -/
def instantiate (b a : Nameless) : Nameless := b.subst (single a)

/-! ## Composition laws -/

theorem liftIndex_comp (ξ ζ : Nat → Nat) :
    liftIndex ζ ∘ liftIndex ξ = liftIndex (ζ ∘ ξ) := by
  funext i
  cases i <;> rfl

theorem liftSubst_comp_liftIndex (σ : Nat → Nameless) (ξ : Nat → Nat) :
    liftSubst σ ∘ liftIndex ξ = liftSubst (σ ∘ ξ) := by
  funext i
  cases i <;> rfl

theorem rename_rename (ξ ζ : Nat → Nat) (t : Nameless) :
    (t.rename ξ).rename ζ = t.rename (ζ ∘ ξ) := by
  induction t generalizing ξ ζ with
  | bound i => rfl
  | free x => rfl
  | abs b ih => simp only [rename, ih, liftIndex_comp]
  | app f a ihf iha => simp only [rename, ihf, iha]

theorem rename_subst (ξ : Nat → Nat) (σ : Nat → Nameless) (t : Nameless) :
    (t.rename ξ).subst σ = t.subst (σ ∘ ξ) := by
  induction t generalizing ξ σ with
  | bound i => rfl
  | free x => rfl
  | abs b ih => simp only [rename, subst, ih, liftSubst_comp_liftIndex]
  | app f a ihf iha => simp only [rename, subst, ihf, iha]

theorem liftSubst_rename (σ : Nat → Nameless) (ξ : Nat → Nat) :
    (fun i => (liftSubst σ i).rename (liftIndex ξ)) =
      liftSubst fun i => (σ i).rename ξ := by
  funext i
  cases i with
  | zero => rfl
  | succ i =>
      show ((σ i).rename Nat.succ).rename (liftIndex ξ) =
        ((σ i).rename ξ).rename Nat.succ
      rw [rename_rename, rename_rename]
      rfl

theorem subst_rename (σ : Nat → Nameless) (ξ : Nat → Nat) (t : Nameless) :
    (t.subst σ).rename ξ = t.subst fun i => (σ i).rename ξ := by
  induction t generalizing σ ξ with
  | bound i => rfl
  | free x => rfl
  | abs b ih => simp only [rename, subst, ih, liftSubst_rename]
  | app f a ihf iha => simp only [rename, subst, ihf, iha]

theorem shift_subst (σ : Nat → Nameless) (t : Nameless) :
    t.shift.subst (liftSubst σ) = (t.subst σ).shift := by
  show (t.rename Nat.succ).subst (liftSubst σ) = (t.subst σ).rename Nat.succ
  rw [rename_subst, subst_rename]
  rfl

theorem liftSubst_subst (σ τ : Nat → Nameless) :
    (fun i => (liftSubst σ i).subst (liftSubst τ)) =
      liftSubst fun i => (σ i).subst τ := by
  funext i
  cases i with
  | zero => rfl
  | succ i => exact shift_subst τ (σ i)

/-- Two substitutions in a row are one. -/
theorem subst_subst (σ τ : Nat → Nameless) (t : Nameless) :
    (t.subst σ).subst τ = t.subst fun i => (σ i).subst τ := by
  induction t generalizing σ τ with
  | bound i => rfl
  | free x => rfl
  | abs b ih => simp only [subst, ih, liftSubst_subst]
  | app f a ihf iha => simp only [subst, ihf, iha]

theorem liftSubst_bound : liftSubst bound = bound := by
  funext i
  cases i <;> rfl

theorem subst_bound (t : Nameless) : t.subst bound = t := by
  induction t with
  | bound i => rfl
  | free x => rfl
  | abs b ih => simp only [subst, liftSubst_bound, ih]
  | app f a ihf iha => simp only [subst, ihf, iha]

theorem rename_eq_subst (ξ : Nat → Nat) (t : Nameless) :
    t.rename ξ = t.subst (bound ∘ ξ) := by
  have hrename := subst_rename bound ξ t
  rw [subst_bound] at hrename
  exact hrename

/-! ## Instantiation -/

/-- A term that came from outside an abstraction does not see its argument. -/
theorem instantiate_shift (t a : Nameless) : t.shift.instantiate a = t := by
  show (t.rename Nat.succ).subst (single a) = t
  rw [rename_subst]
  exact subst_bound t

/-- Substitution commutes with the contraction of a redex. -/
theorem instantiate_subst (σ : Nat → Nameless) (b a : Nameless) :
    (b.instantiate a).subst σ =
      (b.subst (liftSubst σ)).instantiate (a.subst σ) := by
  unfold instantiate
  rw [subst_subst, subst_subst]
  congr 1
  funext i
  cases i with
  | zero => rfl
  | succ i => exact (instantiate_shift (σ i) (a.subst σ)).symm

/-! ## Free names -/

def freeNames : Nameless → List Name
  | bound _ => []
  | free x => [x]
  | abs b => b.freeNames
  | app f a => f.freeNames ++ a.freeNames

theorem freeNames_rename (ξ : Nat → Nat) (t : Nameless) :
    (t.rename ξ).freeNames = t.freeNames := by
  induction t generalizing ξ with
  | bound i => rfl
  | free x => rfl
  | abs b ih => exact ih (liftIndex ξ)
  | app f a ihf iha => simp only [rename, freeNames, ihf, iha]

/-- A substitution brings in no free names but those of what it puts in. -/
theorem mem_freeNames_subst {z : Name} {σ : Nat → Nameless} {t : Nameless}
    (hz : z ∈ (t.subst σ).freeNames) :
    z ∈ t.freeNames ∨ ∃ i, z ∈ (σ i).freeNames := by
  induction t generalizing σ with
  | bound i => exact Or.inr ⟨i, hz⟩
  | free x => exact Or.inl hz
  | abs b ih =>
      rcases ih hz with hb | ⟨i, hi⟩
      · exact Or.inl hb
      · cases i with
        | zero => cases hi
        | succ i =>
            have hshift : z ∈ ((σ i).rename Nat.succ).freeNames := hi
            rw [freeNames_rename] at hshift
            exact Or.inr ⟨i, hshift⟩
  | app f a ihf iha =>
      rcases List.mem_append.1 hz with hf | ha
      · rcases ihf hf with hf | hσ
        · exact Or.inl (List.mem_append_left _ hf)
        · exact Or.inr hσ
      · rcases iha ha with ha | hσ
        · exact Or.inl (List.mem_append_right _ ha)
        · exact Or.inr hσ

theorem mem_freeNames_instantiate {z : Name} {b a : Nameless}
    (hz : z ∈ (b.instantiate a).freeNames) :
    z ∈ b.freeNames ∨ z ∈ a.freeNames := by
  rcases mem_freeNames_subst hz with hb | ⟨i, hi⟩
  · exact Or.inl hb
  · cases i with
    | zero => exact Or.inr hi
    | succ i => cases hi

/-- Replace every free occurrence of `x` by `r`, as it stands, and leave the
rest alone.  This is meant for an `r` without dangling indices, which reads
the same below any number of abstractions. -/
def replaceFree (x : Name) (r : Nameless) : Nameless → Nameless
  | bound i => bound i
  | free y => if y = x then r else free y
  | abs b => abs (replaceFree x r b)
  | app f a => app (replaceFree x r f) (replaceFree x r a)

/-- Replace every free name `x` by `ρ x`, as it stands, and leave the rest
alone. -/
def replaceNames (ρ : Name → Nameless) : Nameless → Nameless
  | bound i => bound i
  | free x => ρ x
  | abs b => abs (replaceNames ρ b)
  | app f a => app (replaceNames ρ f) (replaceNames ρ a)

theorem replaceFree_eq_replaceNames (x : Name) (r t : Nameless) :
    replaceFree x r t =
      replaceNames (fun y => replaceFree x r (free y)) t := by
  induction t with
  | bound i => rfl
  | free y => rfl
  | abs b ih => simp only [replaceFree, replaceNames, ih]
  | app f a ihf iha => simp only [replaceFree, replaceNames, ihf, iha]

/-- What has no dangling index can be put in place of free names before or
after the indices are renamed. -/
theorem replaceNames_rename {ρ : Name → Nameless}
    (hρ : ∀ x ξ, (ρ x).rename ξ = ρ x) (ξ : Nat → Nat) (t : Nameless) :
    replaceNames ρ (t.rename ξ) = (replaceNames ρ t).rename ξ := by
  induction t generalizing ξ with
  | bound i => rfl
  | free x => exact (hρ x ξ).symm
  | abs b ih => simp only [rename, replaceNames, ih]
  | app f a ihf iha => simp only [rename, replaceNames, ihf, iha]

theorem rename_replaceFree_free {x : Name} {r : Nameless}
    (hr : ∀ ξ, r.rename ξ = r) (y : Name) (ξ : Nat → Nat) :
    (replaceFree x r (free y)).rename ξ = replaceFree x r (free y) := by
  rw [replaceFree]
  split
  · exact hr ξ
  · rfl

end Nameless

end UntypedLambda
