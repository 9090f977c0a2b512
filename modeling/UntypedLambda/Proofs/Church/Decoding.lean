import UntypedLambda.Church

/-!
# Which terms encode numbers

A term is read as a number by walking down its applications, while the numeral for
a number is built from the inside out.  The walk stops at the first application of
anything but the outer parameter, so a term that is read to its end has been built
in this way: there is no other term than the numeral that is read as a number.
A numeral whose two parameters have one name is read as no number, though it is
written for every one.

## Main results

* `count?_eq_some_iff`: what is counted in a term are the applications it is
  built from.
* `value?_eq_some_iff`: the terms that are read as a number are its numerals.
* `decoding_inverts_encoding`: reading inverts writing, on exactly what is
  written with two different names.
-/

namespace UntypedLambda.Church

/-- The applications of `f` are counted in those terms that are built from them. -/
theorem count?_eq_some_iff {f x : Name} {t : Term} {n : Nat} :
    count? f x t = some n ↔ t = iterate f x n := by
  constructor
  · intro h
    fun_induction count? f x t generalizing n with
    | case1 =>
        cases h
        rfl
    | case2 => cases h
    | case3 a ih =>
        -- one application more than what is counted in the argument
        obtain ⟨m, hm, rfl⟩ := Option.map_eq_some_iff.1 h
        rw [iterate, ih hm]
    | case4 => cases h
    | case5 => cases h
  · rintro rfl
    exact count?_iterate f x n

/-- A numeral whose parameters have one name is read as no number. -/
theorem value?_numeral_same (n : Nat) (f : Name) : value? (numeral n f f) = none := by
  rw [numeral, value?, if_pos rfl]

/-- The terms that are read as a number are its numerals with two different
names. -/
theorem value?_eq_some_iff {t : Term} {n : Nat} :
    value? t = some n ↔ ∃ f x, f ≠ x ∧ t = numeral n f x := by
  constructor
  · intro h
    unfold value? at h
    split at h
    · next f x b =>
        split at h
        · cases h
        · next hfx =>
            refine ⟨f, x, hfx, ?_⟩
            rw [count?_eq_some_iff.1 h, numeral]
    · cases h
  · rintro ⟨f, x, hfx, rfl⟩
    exact value?_numeral n hfx

theorem value?_eq_none_iff {t : Term} :
    value? t = none ↔ ¬ ∃ n f x, f ≠ x ∧ t = numeral n f x := by
  rw [Option.eq_none_iff_forall_ne_some, not_exists]
  simp only [ne_eq, value?_eq_some_iff]

/-- **Reading a numeral inverts writing it, and nothing else is read.**  A term is
read as a number exactly if it is a numeral for this with two different names, and
is read as none exactly if it is no such numeral for any number, as it is where
both names are the same. -/
theorem decoding_inverts_encoding (t : Term) :
    (∀ n, value? t = some n ↔ ∃ f x, f ≠ x ∧ t = numeral n f x) ∧
      (value? t = none ↔ ¬ ∃ n f x, f ≠ x ∧ t = numeral n f x) ∧
      ∀ n f, value? (numeral n f f) = none :=
  ⟨fun _ => value?_eq_some_iff, value?_eq_none_iff, value?_numeral_same⟩

/-- The head of an application inside is the inner parameter. -/
example : value? (.abs "f" (.abs "x" (.app (.var "f") (.app (.var "x") (.var "x"))))) = none := by
  decide

end UntypedLambda.Church
