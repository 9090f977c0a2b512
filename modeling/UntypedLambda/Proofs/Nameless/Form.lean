import Mathlib.Data.List.Basic
import UntypedLambda.Proofs.Nameless.Basic

/-!
# The nameless form of a term

`Term.namelessWithin ctx t` is the nameless form of `t` below abstractions
over the names `ctx`, innermost first: a name of `ctx` becomes the position of
its first occurrence there, and any other name stays.  `Term.nameless t` is
the form of `t` by itself.

The proofs speak of a more general reading, `Term.readBy ρ t`, in which a free
name `x` may stand for any nameless term `ρ x`.  What an operation does to the
nameless form of a term is then what it does to the reading of single names.

## Main results

* `namelessWithin_eq_readBy`: the nameless form is a reading.
* `readBy_congr`: a reading matters only at the free names of the term.
* `subst_readBy`: replacing indices after a reading is replacing them in what
  it gives.
* `readBy_eq_replaceNames`: a reading of free names as terms by themselves puts
  these in place of the names.
* `mem_freeNames_nameless`: the nameless form has the same free names.
-/

namespace UntypedLambda

/-- What a name stands for below abstractions over `ctx`, innermost first. -/
def Nameless.resolve (ctx : List Name) (x : Name) : Nameless :=
  if x ∈ ctx then .bound (ctx.idxOf x) else .free x

theorem Nameless.resolve_ne_abs (ctx : List Name) (x : Name) (b : Nameless) :
    resolve ctx x ≠ .abs b := by
  unfold resolve
  split <;> simp

theorem Nameless.resolve_ne_app (ctx : List Name) (x : Name) (f a : Nameless) :
    resolve ctx x ≠ .app f a := by
  unfold resolve
  split <;> simp

namespace Term

open Nameless (resolve)

/-- The nameless form of a term below abstractions over `ctx`, innermost
first. -/
def namelessWithin (ctx : List Name) : Term → Nameless
  | var x => resolve ctx x
  | abs x b => .abs (b.namelessWithin (x :: ctx))
  | app f a => .app (f.namelessWithin ctx) (a.namelessWithin ctx)

/-- The nameless form of a term. -/
def nameless (t : Term) : Nameless := t.namelessWithin []

/-! ## Reading free names as terms -/

def readBelow (x : Name) (ρ : Name → Nameless) : Name → Nameless := fun y =>
  if y = x then .bound 0 else (ρ y).shift

/-- The nameless form of a term whose free names stand for the terms `ρ`. -/
def readBy (ρ : Name → Nameless) : Term → Nameless
  | var x => ρ x
  | abs x b => .abs (b.readBy (readBelow x ρ))
  | app f a => .app (f.readBy ρ) (a.readBy ρ)

theorem readBelow_self (x : Name) (ρ : Name → Nameless) :
    readBelow x ρ x = .bound 0 := if_pos rfl

theorem readBelow_ne {x y : Name} (ρ : Name → Nameless) (hyx : y ≠ x) :
    readBelow x ρ y = (ρ y).shift := if_neg hyx

theorem readBelow_resolve (x : Name) (ctx : List Name) :
    readBelow x (resolve ctx) = resolve (x :: ctx) := by
  funext y
  by_cases hyx : y = x
  · subst hyx
    simp [readBelow, resolve]
  · have hxy : x ≠ y := fun h => hyx h.symm
    by_cases hy : y ∈ ctx
    · simp [readBelow, resolve, hyx, hy, List.idxOf_cons_ne ctx hxy,
        Nameless.shift, Nameless.rename]
    · simp [readBelow, resolve, hyx, hy, Nameless.shift, Nameless.rename]

theorem namelessWithin_eq_readBy (ctx : List Name) (t : Term) :
    t.namelessWithin ctx = t.readBy (resolve ctx) := by
  induction t generalizing ctx with
  | var x => rfl
  | abs x b ih => simp only [namelessWithin, readBy, ih, readBelow_resolve]
  | app f a ihf iha => simp only [namelessWithin, readBy, ihf, iha]

theorem nameless_eq_readBy (t : Term) : t.nameless = t.readBy .free := by
  have hempty : resolve [] = Nameless.free := rfl
  rw [nameless, namelessWithin_eq_readBy, hempty]

/-- A reading matters only at the free names of the term. -/
theorem readBy_congr {ρ ρ' : Name → Nameless} {t : Term}
    (h : ∀ y ∈ t.freeNames, ρ y = ρ' y) : t.readBy ρ = t.readBy ρ' := by
  induction t generalizing ρ ρ' with
  | var x => exact h x (by simp)
  | abs x b ih =>
      refine congrArg Nameless.abs (ih fun y hy => ?_)
      by_cases hyx : y = x
      · rw [hyx, readBelow_self, readBelow_self]
      · rw [readBelow_ne ρ hyx, readBelow_ne ρ' hyx, h y (by simp [hy, hyx])]
  | app f a ihf iha =>
      have hf : f.readBy ρ = f.readBy ρ' := ihf fun y hy => h y (by simp [hy])
      have ha : a.readBy ρ = a.readBy ρ' := iha fun y hy => h y (by simp [hy])
      simp only [readBy, hf, ha]

theorem subst_readBy (σ : Nat → Nameless) (ρ : Name → Nameless) (t : Term) :
    (t.readBy ρ).subst σ = t.readBy fun y => (ρ y).subst σ := by
  induction t generalizing σ ρ with
  | var x => rfl
  | abs x b ih =>
      have hbelow : (fun y => (readBelow x ρ y).subst (Nameless.liftSubst σ)) =
          readBelow x fun y => (ρ y).subst σ := by
        funext y
        by_cases hyx : y = x
        · rw [hyx, readBelow_self, readBelow_self]
          rfl
        · rw [readBelow_ne _ hyx, readBelow_ne _ hyx, Nameless.shift_subst]
      simp only [readBy, Nameless.subst, ih, hbelow]
  | app f a ihf iha => simp only [readBy, Nameless.subst, ihf, iha]

theorem rename_readBy (ξ : Nat → Nat) (ρ : Name → Nameless) (t : Term) :
    (t.readBy ρ).rename ξ = t.readBy fun y => (ρ y).rename ξ := by
  simp only [Nameless.rename_eq_subst, subst_readBy]

/-- A nameless form has no dangling index. -/
theorem rename_nameless (ξ : Nat → Nat) (t : Term) :
    t.nameless.rename ξ = t.nameless := by
  rw [nameless_eq_readBy, rename_readBy]
  rfl

/-- Below an abstraction over a name that is not free in it, a term reads as
it does outside. -/
theorem readBy_below_of_not_mem {x : Name} {t : Term} (ρ : Name → Nameless)
    (hx : x ∉ t.freeNames) : t.readBy (readBelow x ρ) = (t.readBy ρ).shift := by
  rw [Nameless.shift, rename_readBy]
  refine readBy_congr fun y hy => ?_
  have hyx : y ≠ x := fun h => hx (h ▸ hy)
  exact readBelow_ne ρ hyx

/-! ## Free names -/

/-- What has no dangling index can be put in place of free names before or
after a reading. -/
theorem replaceNames_readBy {ρ : Name → Nameless}
    (hρ : ∀ x ξ, (ρ x).rename ξ = ρ x) (σ : Name → Nameless) (t : Term) :
    Nameless.replaceNames ρ (t.readBy σ) =
      t.readBy fun y => Nameless.replaceNames ρ (σ y) := by
  induction t generalizing σ with
  | var y => rfl
  | abs y b ih =>
      have hbelow : (fun w => Nameless.replaceNames ρ (readBelow y σ w)) =
          readBelow y fun w => Nameless.replaceNames ρ (σ w) := by
        funext w
        by_cases hwy : w = y
        · rw [hwy, readBelow_self, readBelow_self]
          rfl
        · rw [readBelow_ne _ hwy, readBelow_ne _ hwy]
          exact Nameless.replaceNames_rename hρ Nat.succ (σ w)
      simp only [readBy, Nameless.replaceNames, ih, hbelow]
  | app f a ihf iha => simp only [readBy, Nameless.replaceNames, ihf, iha]

/-- Reading free names as terms without dangling indices is putting these in
place of the names in the nameless form. -/
theorem readBy_eq_replaceNames {ρ : Name → Nameless}
    (hρ : ∀ x ξ, (ρ x).rename ξ = ρ x) (t : Term) :
    t.readBy ρ = Nameless.replaceNames ρ t.nameless := by
  rw [nameless_eq_readBy, replaceNames_readBy hρ]
  rfl

/-- Abstractions over other names than those that are free in a term do not
matter for its form. -/
theorem namelessWithin_of_not_mem {ctx : List Name} {t : Term}
    (h : ∀ x ∈ t.freeNames, x ∉ ctx) : t.namelessWithin ctx = t.nameless := by
  rw [namelessWithin_eq_readBy, nameless_eq_readBy]
  exact readBy_congr fun x hx => if_neg (h x hx)

theorem mem_freeNames_readBy (z : Name) (ρ : Name → Nameless) (t : Term) :
    z ∈ (t.readBy ρ).freeNames ↔ ∃ y ∈ t.freeNames, z ∈ (ρ y).freeNames := by
  induction t generalizing ρ with
  | var x => simp [readBy]
  | abs x b ih =>
      show z ∈ (b.readBy (readBelow x ρ)).freeNames ↔ _
      rw [ih]
      constructor
      · intro h
        obtain ⟨y, hy, hz⟩ := h
        by_cases hyx : y = x
        · rw [hyx, readBelow_self] at hz
          cases hz
        · rw [readBelow_ne ρ hyx, Nameless.shift,
            Nameless.freeNames_rename] at hz
          exact ⟨y, (mem_freeNames_abs y x b).2 ⟨hy, hyx⟩, hz⟩
      · intro h
        obtain ⟨y, hy, hz⟩ := h
        obtain ⟨hyb, hyx⟩ := (mem_freeNames_abs y x b).1 hy
        refine ⟨y, hyb, ?_⟩
        rw [readBelow_ne ρ hyx, Nameless.shift, Nameless.freeNames_rename]
        exact hz
  | app f a ihf iha =>
      simp only [readBy, Nameless.freeNames, List.mem_append, ihf, iha,
        mem_freeNames_app, or_and_right, exists_or]

/-- The nameless form has the same free names as the term. -/
theorem mem_freeNames_nameless (z : Name) (t : Term) :
    z ∈ t.nameless.freeNames ↔ z ∈ t.freeNames := by
  rw [nameless_eq_readBy, mem_freeNames_readBy]
  simp [Nameless.freeNames]

end Term

end UntypedLambda
