import UntypedLambda.Proofs.Nameless.Beta

/-!
# Standardization

A reduction may contract its redexes in any order.  It can always be rearranged
into a standard one: first contractions in head position (`Head`), then
standard reductions inside the parts of what they lead to (`Standard`).  The
rearrangement is an induction over standard reductions: a contraction that
follows one is moved to the front of it (`Standard.beta`), where the case of a
redex needs that a standard reduction of the body and one of the argument give
one of the contraction (`Standard.subst`).

A standard reduction to a normal form never leaves a redex behind, so it can
only have contracted leftmost outermost redexes.

## Main results

* `standard_of_reduces`: every reduction can be made standard.
* `Standard.leftmost`: a standard reduction to a normal form is one by
  leftmost outermost contractions.
* `leftmost_of_reduces`: leftmost outermost contractions find every normal form
  that any contractions find.
* `leftmost_normal_unique`: and they find no other.
-/

namespace UntypedLambda.Nameless

open Relation (ReflTransGen)

/-! ## Contraction in head position -/

/-- The contraction of the redex at the head of a spine of applications. -/
inductive Head : Nameless → Nameless → Prop
  | redex (b a : Nameless) : Head (app (abs b) a) (b.instantiate a)
  | fn {f f' : Nameless} (a : Nameless) : Head f f' → Head (app f a) (app f' a)

theorem Head.leftmost {M N : Nameless} (h : Head M N) : Leftmost M N := by
  induction h with
  | redex b a => exact leftmost_redex b a
  | fn a hhead ih =>
      refine leftmost_fn a ?_ ih
      intro b hb
      subst hb
      cases hhead

theorem Head.subst {M N : Nameless} (h : Head M N) (σ : Nat → Nameless) :
    Head (M.subst σ) (N.subst σ) := by
  induction h with
  | redex b a =>
      rw [instantiate_subst]
      exact .redex _ _
  | fn a _ ih => exact .fn _ ih

theorem head_subst {M N : Nameless} (h : ReflTransGen Head M N)
    (σ : Nat → Nameless) : ReflTransGen Head (M.subst σ) (N.subst σ) :=
  h.lift (fun M : Nameless => M.subst σ) fun _ _ hstep => hstep.subst σ

theorem head_rename {M N : Nameless} (h : ReflTransGen Head M N)
    (ξ : Nat → Nat) : ReflTransGen Head (M.rename ξ) (N.rename ξ) := by
  rw [rename_eq_subst, rename_eq_subst]
  exact head_subst h _

theorem head_fn {f f' : Nameless} (h : ReflTransGen Head f f') (a : Nameless) :
    ReflTransGen Head (app f a) (app f' a) :=
  h.lift (fun f : Nameless => app f a) fun _ _ hstep => .fn a hstep

/-! ## Standard reductions -/

/-- A reduction that contracts in head position first and inside the parts of
the result afterwards. -/
inductive Standard : Nameless → Nameless → Prop
  | bound {M : Nameless} {i : Nat} :
      ReflTransGen Head M (bound i) → Standard M (bound i)
  | free {M : Nameless} {x : Name} :
      ReflTransGen Head M (free x) → Standard M (free x)
  | abs {M b c : Nameless} :
      ReflTransGen Head M (abs b) → Standard b c → Standard M (abs c)
  | app {M f a g c : Nameless} :
      ReflTransGen Head M (app f a) → Standard f g → Standard a c →
        Standard M (app g c)

theorem Standard.refl (M : Nameless) : Standard M M := by
  induction M with
  | bound i => exact .bound .refl
  | free x => exact .free .refl
  | abs b ih => exact .abs .refl ih
  | app f a ihf iha => exact .app .refl ihf iha

/-- Contractions in head position may come before a standard reduction. -/
theorem Standard.head {M N L : Nameless} (h : ReflTransGen Head M N)
    (hst : Standard N L) : Standard M L := by
  cases hst with
  | bound hN => exact .bound (h.trans hN)
  | free hN => exact .free (h.trans hN)
  | abs hN hb => exact .abs (h.trans hN) hb
  | app hN hf ha => exact .app (h.trans hN) hf ha

theorem Standard.rename {M N : Nameless} (h : Standard M N) (ξ : Nat → Nat) :
    Standard (M.rename ξ) (N.rename ξ) := by
  induction h generalizing ξ with
  | bound hM => exact .bound (head_rename hM ξ)
  | free hM => exact .free (head_rename hM ξ)
  | abs hM _ ih => exact .abs (head_rename hM ξ) (ih _)
  | app hM _ _ ihf iha => exact .app (head_rename hM ξ) (ihf ξ) (iha ξ)

private theorem standard_liftSubst {σ τ : Nat → Nameless}
    (h : ∀ i, Standard (σ i) (τ i)) (i : Nat) :
    Standard (liftSubst σ i) (liftSubst τ i) := by
  cases i with
  | zero => exact .refl _
  | succ i => exact (h i).rename Nat.succ

/-- Standard reductions of a term and of what is put into it make one of the
result. -/
theorem Standard.subst {M N : Nameless} (h : Standard M N)
    {σ τ : Nat → Nameless} (hστ : ∀ i, Standard (σ i) (τ i)) :
    Standard (M.subst σ) (N.subst τ) := by
  induction h generalizing σ τ with
  | bound hM => exact .head (head_subst hM σ) (hστ _)
  | free hM => exact .free (head_subst hM σ)
  | abs hM _ ih =>
      exact .abs (head_subst hM σ) (ih (standard_liftSubst hστ))
  | app hM _ _ ihf iha =>
      exact .app (head_subst hM σ) (ihf hστ) (iha hστ)

private theorem standard_instantiate {b c a d : Nameless}
    (hb : Standard b c) (ha : Standard a d) :
    Standard (b.instantiate a) (c.instantiate d) := by
  refine hb.subst fun i => ?_
  cases i with
  | zero => exact ha
  | succ i => exact .refl _

/-- A contraction after a standard reduction can be moved into it. -/
theorem Standard.beta {M N L : Nameless} (hst : Standard M N)
    (hbeta : Beta N L) : Standard M L := by
  obtain ⟨p, hp⟩ := hbeta
  induction hst generalizing p L with
  | bound => cases hp
  | free => cases hp
  | abs hM _ ih =>
      cases hp with
      | body hp => exact .abs hM (ih _ hp)
  | app hM hf ha ihf iha =>
      cases hp with
      | redex b =>
          -- the function has become an abstraction in head position already
          cases hf with
          | abs hhead hb =>
              have hredex := (hM.trans (head_fn hhead _)).tail (.redex _ _)
              exact .head hredex (standard_instantiate hb ha)
      | fn _ hp => exact .app hM (ihf _ hp) ha
      | arg _ hp => exact .app hM hf (iha _ hp)

/-- **Standardization.**  Every reduction can be made standard. -/
theorem standard_of_reduces {M N : Nameless} (h : ReflTransGen Beta M N) :
    Standard M N := by
  induction h with
  | refl => exact .refl M
  | tail _ hbeta ih => exact ih.beta hbeta

/-! ## Leftmost outermost reductions -/

private theorem leftmost_abs_shape {b N : Nameless}
    (h : ReflTransGen Leftmost (abs b) N) : ∃ c, N = abs c := by
  induction h with
  | refl => exact ⟨b, rfl⟩
  | tail _ hstep ih =>
      obtain ⟨c, rfl⟩ := ih
      obtain ⟨p, hp⟩ := hstep.beta
      cases hp with
      | body => exact ⟨_, rfl⟩

private theorem leftmosts_fn {f g : Nameless} (a : Nameless)
    (hg : ∀ b, g ≠ abs b) (h : ReflTransGen Leftmost f g) :
    ReflTransGen Leftmost (app f a) (app g a) := by
  induction h using ReflTransGen.head_induction_on with
  | refl => exact .refl
  | head hstep hrest ih =>
      refine .head (leftmost_fn a ?_ hstep) ih
      rintro b rfl
      obtain ⟨c, hc⟩ := leftmost_abs_shape (.head hstep hrest)
      exact hg c hc

private theorem leftmosts_arg {f a c : Nameless} (hf : ∀ b, f ≠ abs b)
    (hnormal : Normal f) (h : ReflTransGen Leftmost a c) :
    ReflTransGen Leftmost (app f a) (app f c) :=
  h.lift (fun a : Nameless => app f a)
    fun _ _ hstep => leftmost_arg hf hnormal hstep

private theorem leftmosts_of_head {M N : Nameless}
    (h : ReflTransGen Head M N) : ReflTransGen Leftmost M N :=
  h.lift id fun _ _ hstep => hstep.leftmost

/-- A standard reduction to a normal form contracts leftmost outermost redexes
only. -/
theorem Standard.leftmost {M N : Nameless} (h : Standard M N)
    (hN : Normal N) : ReflTransGen Leftmost M N := by
  induction h with
  | bound hM => exact leftmosts_of_head hM
  | free hM => exact leftmosts_of_head hM
  | abs hM _ ih =>
      have hbody := ih ((normal_abs_iff _).1 hN)
      exact (leftmosts_of_head hM).trans
        (hbody.lift Nameless.abs fun _ _ hstep => leftmost_abs hstep)
  | @app M f a g c hM _ _ ihf iha =>
      obtain ⟨hg, hgn, hcn⟩ := (normal_app_iff g c).1 hN
      have hfn := leftmosts_fn a hg (ihf hgn)
      have harg := leftmosts_arg hg hgn (iha hcn)
      exact (leftmosts_of_head hM).trans (hfn.trans harg)

/-- **Leftmost outermost contractions find every normal form** that any
contractions find. -/
theorem leftmost_of_reduces {M N : Nameless} (h : ReflTransGen Beta M N)
    (hN : Normal N) : ReflTransGen Leftmost M N :=
  (standard_of_reduces h).leftmost hN

private theorem eq_of_normal {M N : Nameless} (hM : Normal M)
    (h : ReflTransGen Leftmost M N) : M = N := by
  induction h using ReflTransGen.head_induction_on with
  | refl => rfl
  | head hstep _ _ => exact absurd hstep.beta (hM _)

/-- Leftmost outermost contractions lead to at most one normal form. -/
theorem leftmost_normal_unique {M N L : Nameless}
    (hMN : ReflTransGen Leftmost M N) (hN : Normal N)
    (hML : ReflTransGen Leftmost M L) (hL : Normal L) : N = L := by
  have hunique : Relator.RightUnique Leftmost := fun _ _ _ h h' => h.unique h'
  rcases ReflTransGen.total_of_right_unique hunique hMN hML with h | h
  · exact eq_of_normal hN h
  · exact (eq_of_normal hL h).symm

end UntypedLambda.Nameless
