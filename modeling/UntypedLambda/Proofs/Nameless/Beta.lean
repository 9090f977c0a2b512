import Mathlib.Logic.Relation
import UntypedLambda.Proofs.Nameless.Basic

/-!
# Contraction of redexes in nameless terms

A redex is an application of an abstraction.  `ContractsAt p M N` says that
the redex at the position `p` of `M` is contracted and nothing else is
touched, so `Beta`, the contraction of some redex, may act anywhere.

Positions are ordered as they are met when a term is read from the outside in
and from left to right (`NoLater`).  The leftmost outermost redex is the one
at the first position that has a redex at all, and `Leftmost M N` contracts
that one.

## Main results

* `Leftmost.unique`: a term has at most one leftmost outermost contraction.
* `Beta.mem_freeNames`: a contraction brings in no free names.
* `leftmost_abs`, `leftmost_fn`, `leftmost_arg`: where the leftmost outermost
  redex of a compound term is.
-/

namespace UntypedLambda.Nameless

/-! ## Positions -/

inductive Direction where
  | body
  | fn
  | arg
  deriving DecidableEq

/-- The way from a term to a part of it. -/
abbrev Position := List Direction

/-- A position is met no later than another when a term is read from the
outside in and from left to right: a term before its parts, and a function
before its argument. -/
inductive NoLater : Position → Position → Prop
  | outer (p : Position) : NoLater [] p
  | left (p q : Position) : NoLater (.fn :: p) (.arg :: q)
  | within (d : Direction) {p q : Position} :
      NoLater p q → NoLater (d :: p) (d :: q)

theorem NoLater.antisymm {p q : Position} (hpq : NoLater p q)
    (hqp : NoLater q p) : p = q := by
  induction hpq with
  | outer p => cases hqp; rfl
  | left p q => cases hqp
  | within d _ ih =>
      cases hqp with
      | within _ hqp => rw [ih hqp]

/-! ## Contraction -/

/-- The contraction of the redex at a position. -/
inductive ContractsAt : Position → Nameless → Nameless → Prop
  | redex (b a : Nameless) : ContractsAt [] (app (abs b) a) (b.instantiate a)
  | body {p : Position} {b b' : Nameless} :
      ContractsAt p b b' → ContractsAt (.body :: p) (abs b) (abs b')
  | fn {p : Position} {f f' : Nameless} (a : Nameless) :
      ContractsAt p f f' → ContractsAt (.fn :: p) (app f a) (app f' a)
  | arg {p : Position} {a a' : Nameless} (f : Nameless) :
      ContractsAt p a a' → ContractsAt (.arg :: p) (app f a) (app f a')

/-- The contraction of any one redex. -/
def Beta (M N : Nameless) : Prop := ∃ p, ContractsAt p M N

def Normal (M : Nameless) : Prop := ∀ N, ¬ Beta M N

/-- The contraction of the leftmost outermost redex. -/
def Leftmost (M N : Nameless) : Prop :=
  ∃ p, ContractsAt p M N ∧ ∀ q L, ContractsAt q M L → NoLater p q

theorem ContractsAt.unique {p : Position} {M N L : Nameless}
    (hN : ContractsAt p M N) (hL : ContractsAt p M L) : N = L := by
  induction hN generalizing L with
  | redex b a => cases hL; rfl
  | body _ ih =>
      cases hL with
      | body hL => rw [ih hL]
  | fn a _ ih =>
      cases hL with
      | fn _ hL => rw [ih hL]
  | arg f _ ih =>
      cases hL with
      | arg _ hL => rw [ih hL]

/-- A term has at most one leftmost outermost contraction. -/
theorem Leftmost.unique {M N L : Nameless} (hN : Leftmost M N)
    (hL : Leftmost M L) : N = L := by
  obtain ⟨p, hpN, hp⟩ := hN
  obtain ⟨q, hqL, hq⟩ := hL
  have hpq : p = q := (hp q L hqL).antisymm (hq p N hpN)
  subst hpq
  exact hpN.unique hqL

theorem Leftmost.beta {M N : Nameless} (h : Leftmost M N) : Beta M N := by
  obtain ⟨p, hp, -⟩ := h
  exact ⟨p, hp⟩

/-- A contraction brings in no free names. -/
theorem Beta.mem_freeNames {M N : Nameless} (h : Beta M N) {z : Name}
    (hz : z ∈ N.freeNames) : z ∈ M.freeNames := by
  obtain ⟨p, hp⟩ := h
  induction hp with
  | redex b a =>
      rcases mem_freeNames_instantiate hz with hb | ha
      · exact List.mem_append_left _ hb
      · exact List.mem_append_right _ ha
  | body _ ih => exact ih hz
  | fn a _ ih =>
      rcases List.mem_append.1 hz with hf | ha
      · exact List.mem_append_left _ (ih hf)
      · exact List.mem_append_right _ ha
  | arg f _ ih =>
      rcases List.mem_append.1 hz with hf | ha
      · exact List.mem_append_left _ hf
      · exact List.mem_append_right _ (ih ha)

/-! ## Where the leftmost outermost redex is -/

theorem leftmost_redex (b a : Nameless) :
    Leftmost (app (abs b) a) (b.instantiate a) :=
  ⟨[], .redex b a, fun q _ _ => .outer q⟩

theorem leftmost_abs {b b' : Nameless} (h : Leftmost b b') :
    Leftmost (abs b) (abs b') := by
  obtain ⟨p, hp, hfirst⟩ := h
  refine ⟨.body :: p, .body hp, fun q L hq => ?_⟩
  cases hq with
  | body hq => exact .within _ (hfirst _ _ hq)

theorem leftmost_fn {f f' : Nameless} (a : Nameless) (hf : ∀ b, f ≠ abs b)
    (h : Leftmost f f') : Leftmost (app f a) (app f' a) := by
  obtain ⟨p, hp, hfirst⟩ := h
  refine ⟨.fn :: p, .fn a hp, fun q L hq => ?_⟩
  cases hq with
  | redex b => exact absurd rfl (hf b)
  | fn _ hq => exact .within _ (hfirst _ _ hq)
  | arg _ hq => exact .left _ _

/-- The argument of an application comes after a function without a redex. -/
theorem leftmost_arg {f a a' : Nameless} (hf : ∀ b, f ≠ abs b)
    (hnormal : Normal f) (h : Leftmost a a') :
    Leftmost (app f a) (app f a') := by
  obtain ⟨p, hp, hfirst⟩ := h
  refine ⟨.arg :: p, .arg f hp, fun q L hq => ?_⟩
  cases hq with
  | redex b => exact absurd rfl (hf b)
  | fn _ hq => exact absurd ⟨_, hq⟩ (hnormal _)
  | arg _ hq => exact .within _ (hfirst _ _ hq)

/-! ## Terms without a redex -/

theorem normal_bound (i : Nat) : Normal (bound i) := by
  intro N h
  obtain ⟨p, hp⟩ := h
  cases hp

theorem normal_free (x : Name) : Normal (free x) := by
  intro N h
  obtain ⟨p, hp⟩ := h
  cases hp

theorem normal_abs_iff (b : Nameless) : Normal (abs b) ↔ Normal b := by
  constructor
  · intro h N hstep
    obtain ⟨p, hp⟩ := hstep
    exact h (abs N) ⟨_, .body hp⟩
  · intro h N hstep
    obtain ⟨p, hp⟩ := hstep
    cases hp with
    | body hp => exact h _ ⟨_, hp⟩

theorem normal_app_iff (f a : Nameless) :
    Normal (app f a) ↔ (∀ b, f ≠ abs b) ∧ Normal f ∧ Normal a := by
  constructor
  · intro h
    refine ⟨?_, ?_, ?_⟩
    · intro b hf
      subst hf
      exact h _ ⟨_, .redex b a⟩
    · intro N hstep
      obtain ⟨p, hp⟩ := hstep
      exact h _ ⟨_, .fn a hp⟩
    · intro N hstep
      obtain ⟨p, hp⟩ := hstep
      exact h _ ⟨_, .arg f hp⟩
  · intro h N hstep
    obtain ⟨hf, hfn, harg⟩ := h
    obtain ⟨p, hp⟩ := hstep
    cases hp with
    | redex b => exact hf b rfl
    | fn _ hp => exact hfn _ ⟨_, hp⟩
    | arg _ hp => exact harg _ ⟨_, hp⟩

end UntypedLambda.Nameless
