import UntypedLambda.Term.Outline

/-!
# JSON texts of trees determine them

Values that are built from texts and objects are told apart by their JSON texts.
More is true, and is what an induction needs: where such a text starts a longer one,
it can be seen where it ends.  A quoted text ends at the first quote that is not
part of an escape, and an object at the brace that follows its last member; after a
member there is a comma if there is another one, and the end of the line if not.

Numbers are left out.  Where one ends is only seen from what follows it.

## Main results

* `quote_append_inj`: quoted texts.
* `prettyAt_append_inj`: values from texts and objects, at any level of nesting.
* `pretty_outline_inj`: the JSON text of a term's tree determines the term.
-/

namespace UntypedLambda

namespace Json

/-! ## Quoted texts -/

theorem letter?_injective {c d l : Char} (hc : letter? c = some l)
    (hd : letter? d = some l) : c = d := by
  unfold letter? at hc hd
  split at hc <;> cases hc <;> split at hd <;> first | rfl | cases hd

theorem letter?_ne_u (c : Char) : letter? c ≠ some 'u' := by
  unfold letter?
  split <;> decide

theorem hexDigits_inj_of_lt {n m : Nat} (hn : n < 0x20) (hm : m < 0x20)
    (h : Text.hexDigits 4 n = Text.hexDigits 4 m) : n = m := by
  have hall : ∀ n < 0x20, ∀ m < 0x20,
      Text.hexDigits 4 n = Text.hexDigits 4 m → n = m := by decide +kernel
  exact hall n hn m hm h

/-- What a character can be inside a JSON text: an escape with a letter, an escape
with four digits, or itself. -/
theorem escapeChar_cases (c : Char) :
    (∃ l, letter? c = some l ∧ escapeChar c = ['\\', l]) ∨
      (c.toNat < 0x20 ∧ escapeChar c = '\\' :: 'u' :: Text.hexDigits 4 c.toNat) ∨
      (letter? c = none ∧ escapeChar c = [c]) := by
  unfold escapeChar
  cases hletter : letter? c with
  | some l => exact Or.inl ⟨l, rfl, rfl⟩
  | none =>
      by_cases hcontrol : c.toNat < 0x20
      · exact Or.inr (Or.inl ⟨hcontrol, if_pos hcontrol⟩)
      · exact Or.inr (Or.inr ⟨rfl, if_neg hcontrol⟩)

theorem ne_of_letter?_eq_none {c : Char} (h : letter? c = none) :
    c ≠ '"' ∧ c ≠ '\\' := by
  constructor <;> rintro rfl <;> cases h

/-- Inside a JSON text it can be seen where a character ends. -/
theorem escapeChar_append_inj {c d : Char} {r r' : List Char}
    (h : escapeChar c ++ r = escapeChar d ++ r') : c = d ∧ r = r' := by
  rcases escapeChar_cases c with ⟨l, hl, hc⟩ | ⟨hn, hc⟩ | ⟨hplain, hc⟩ <;>
    rcases escapeChar_cases d with ⟨l', hl', hd⟩ | ⟨hn', hd⟩ | ⟨hplain', hd⟩ <;>
    rw [hc, hd] at h
  case inl.inl =>
    simp only [List.cons_append, List.nil_append, List.cons.injEq, true_and] at h
    exact ⟨letter?_injective hl (h.1 ▸ hl'), h.2⟩
  case inr.inl.inr.inl =>
    simp only [List.cons_append, List.cons.injEq, true_and] at h
    have hlength : (Text.hexDigits 4 c.toNat).length = (Text.hexDigits 4 d.toNat).length := by
      rw [Text.length_hexDigits, Text.length_hexDigits]
    obtain ⟨hdigits, hrest⟩ := List.append_inj h hlength
    exact ⟨Char.toNat_inj.1 (hexDigits_inj_of_lt hn hn' hdigits), hrest⟩
  case inr.inr.inr.inr =>
    simp only [List.cons_append, List.nil_append, List.cons.injEq] at h
    exact h
  case inl.inr.inl =>
    simp only [List.cons_append, List.cons.injEq, true_and] at h
    exact absurd (h.1 ▸ hl) (letter?_ne_u c)
  case inr.inl.inl =>
    simp only [List.cons_append, List.cons.injEq, true_and] at h
    exact absurd (h.1 ▸ hl') (letter?_ne_u d)
  case inl.inr.inr | inr.inl.inr.inr =>
    simp only [List.cons_append, List.cons.injEq] at h
    exact absurd h.1.symm (ne_of_letter?_eq_none hplain').2
  case inr.inr.inl | inr.inr.inr.inl =>
    simp only [List.cons_append, List.cons.injEq] at h
    exact absurd h.1 (ne_of_letter?_eq_none hplain).2

/-- No character inside a JSON text can be taken for its end. -/
theorem escapeChar_append_ne_quote (c : Char) (r r' : List Char) :
    escapeChar c ++ r ≠ '"' :: r' := by
  rcases escapeChar_cases c with ⟨l, -, hc⟩ | ⟨-, hc⟩ | ⟨hplain, hc⟩ <;> rw [hc]
  case inr.inr =>
    intro h
    rw [List.cons_append, List.cons.injEq] at h
    exact (ne_of_letter?_eq_none hplain).1 h.1
  all_goals simp

theorem toList_quote (s : String) :
    (quote s).toList = '"' :: s.toList.flatMap escapeChar ++ ['"'] := by
  rw [quote, String.toList_ofList]

/-- **A quoted text determines the text, and where it ends.** -/
theorem quote_append_inj {s t : String} {r r' : List Char}
    (h : (quote s).toList ++ r = (quote t).toList ++ r') : s = t ∧ r = r' := by
  have hchars : ∀ cs ds : List Char,
      cs.flatMap escapeChar ++ '"' :: r = ds.flatMap escapeChar ++ '"' :: r' →
        cs = ds ∧ r = r' := by
    intro cs
    induction cs with
    | nil =>
        intro ds hds
        cases ds with
        | nil => exact ⟨rfl, (List.cons.inj hds).2⟩
        | cons d ds =>
            rw [List.flatMap_cons, List.append_assoc] at hds
            exact absurd hds.symm (escapeChar_append_ne_quote d _ r)
    | cons c cs ih =>
        intro ds hds
        rw [List.flatMap_cons, List.append_assoc] at hds
        cases ds with
        | nil => exact absurd hds (escapeChar_append_ne_quote c _ r')
        | cons d ds =>
            rw [List.flatMap_cons, List.append_assoc] at hds
            obtain ⟨hcd, hrest⟩ := escapeChar_append_inj hds
            obtain ⟨htexts, hr⟩ := ih ds hrest
            exact ⟨by rw [hcd, htexts], hr⟩
  simp only [toList_quote, List.cons_append, List.append_assoc, List.nil_append,
    List.cons.injEq, true_and] at h
  obtain ⟨htexts, hr⟩ := hchars s.toList t.toList h
  exact ⟨String.toList_injective htexts, hr⟩

/-! ## Values -/

/-- A value that is built from texts and objects only. -/
inductive Textual : Json → Prop
  | str (s : String) : Textual (str s)
  | object {members : List (String × Json)} (h : ∀ m ∈ members, Textual m.2) :
      Textual (object members)

theorem toList_prettyAt_object_cons (depth : Nat) (m : String × Json)
    (rest : List (String × Json)) (r : List Char) :
    (prettyAt depth (object (m :: rest))).toList ++ r =
      '\x7b' :: '\n' :: ((prettyMembers (depth + 1) (m :: rest)).toList ++
        '\n' :: ((indent depth).toList ++ '\x7d' :: r)) := by
  simp [prettyAt]

/-- What follows a member of an object, where `r` follows the line of the last one. -/
def afterMember (depth : Nat) (rest : List (String × Json)) (r : List Char) : List Char :=
  match rest with
  | [] => '\n' :: r
  | m :: rest => ',' :: '\n' :: ((prettyMembers depth (m :: rest)).toList ++ '\n' :: r)

theorem toList_prettyMembers_cons (depth : Nat) (m : String × Json)
    (rest : List (String × Json)) (r : List Char) :
    (prettyMembers depth (m :: rest)).toList ++ '\n' :: r =
      (indent depth).toList ++ ((quote m.1).toList ++ ':' :: ' ' ::
        ((prettyAt depth m.2).toList ++ afterMember depth rest r)) := by
  cases rest <;> simp [prettyMembers, afterMember]

/-- At every level it can be seen where the text of a value ends, and by that text the
value is told from all others. -/
def Distinct (v : Json) : Prop :=
  ∀ (w : Json) (depth : Nat) (r r' : List Char), Textual w →
    (prettyAt depth v).toList ++ r = (prettyAt depth w).toList ++ r' → v = w ∧ r = r'

/-- A text starts with a quote and an object with a brace. -/
theorem prettyAt_str_append_ne_object (s : String) (members : List (String × Json))
    (depth : Nat) (r r' : List Char) :
    (prettyAt depth (str s)).toList ++ r ≠
      (prettyAt depth (object members)).toList ++ r' := by
  have hquote : (prettyAt depth (str s)).toList ++ r =
      '"' :: ((s.toList.flatMap escapeChar ++ ['"']) ++ r) := by
    rw [prettyAt, toList_quote]
    rfl
  rw [hquote]
  cases members with
  | nil => simp [prettyAt]
  | cons m rest => simp [toList_prettyAt_object_cons]

theorem distinct_str (s : String) : Distinct (str s) := by
  intro w depth r r' hw h
  cases hw with
  | str t =>
      obtain ⟨hst, hr⟩ := quote_append_inj h
      exact ⟨congrArg str hst, hr⟩
  | object => exact absurd h (prettyAt_str_append_ne_object s _ depth r r')

/-- The first member of an object, and what follows it. -/
theorem member_append_inj {depth : Nat} {m m' : String × Json}
    {rest rest' : List (String × Json)} {r r' : List Char} (hm : Distinct m.2)
    (hm' : Textual m'.2)
    (h : (prettyMembers depth (m :: rest)).toList ++ '\n' :: r =
      (prettyMembers depth (m' :: rest')).toList ++ '\n' :: r') :
    m = m' ∧ afterMember depth rest r = afterMember depth rest' r' := by
  rw [toList_prettyMembers_cons, toList_prettyMembers_cons] at h
  obtain ⟨hkey, hvalue⟩ := quote_append_inj (List.append_cancel_left h)
  simp only [List.cons.injEq, true_and] at hvalue
  obtain ⟨heq, hafter⟩ := hm m'.2 depth _ _ hm' hvalue
  exact ⟨Prod.ext hkey heq, hafter⟩

theorem prettyMembers_append_inj {depth : Nat} {m m' : String × Json}
    {rest rest' : List (String × Json)} {r r' : List Char}
    (hdistinct : ∀ e ∈ m :: rest, Distinct e.2) (htextual : ∀ e ∈ m' :: rest', Textual e.2)
    (h : (prettyMembers depth (m :: rest)).toList ++ '\n' :: r =
      (prettyMembers depth (m' :: rest')).toList ++ '\n' :: r') :
    m :: rest = m' :: rest' ∧ r = r' := by
  induction rest generalizing m m' rest' with
  | nil =>
      obtain ⟨hm, hafter⟩ := member_append_inj (hdistinct m List.mem_cons_self)
        (htextual m' List.mem_cons_self) h
      cases rest' with
      | nil => exact ⟨by rw [hm], (List.cons.inj hafter).2⟩
      | cons e' rest' => exact absurd (List.cons.inj hafter).1 (by decide)
  | cons e rest ih =>
      obtain ⟨hm, hafter⟩ := member_append_inj (hdistinct m List.mem_cons_self)
        (htextual m' List.mem_cons_self) h
      cases rest' with
      | nil => exact absurd (List.cons.inj hafter).1 (by decide)
      | cons e' rest' =>
          rw [afterMember, afterMember, List.cons.injEq, List.cons.injEq] at hafter
          obtain ⟨hrest, hr⟩ := ih (fun e he => hdistinct e (List.mem_cons_of_mem m he))
            (fun e he => htextual e (List.mem_cons_of_mem m' he)) hafter.2.2
          exact ⟨by rw [hm, hrest], hr⟩

theorem distinct_object {members : List (String × Json)}
    (hmembers : ∀ m ∈ members, Distinct m.2) : Distinct (object members) := by
  intro w depth r r' hw h
  cases hw with
  | str t => exact absurd h.symm (prettyAt_str_append_ne_object t members depth r' r)
  | @object members' htextual =>
      cases members with
      | nil =>
          cases members' with
          | nil => exact ⟨rfl, List.append_cancel_left h⟩
          | cons m' rest' => simp [prettyAt] at h
      | cons m rest =>
          cases members' with
          | nil => simp [prettyAt] at h
          | cons m' rest' =>
              rw [toList_prettyAt_object_cons, toList_prettyAt_object_cons,
                List.cons.injEq, List.cons.injEq] at h
              obtain ⟨heq, hafter⟩ := prettyMembers_append_inj hmembers htextual h.2.2
              have hr := List.append_cancel_left hafter
              exact ⟨congrArg object heq, (List.cons.inj hr).2⟩

/-- **The JSON text of a value from texts and objects determines the value**, and
where it ends. -/
theorem prettyAt_append_inj {v w : Json} (hv : Textual v) (hw : Textual w)
    (depth : Nat) {r r' : List Char}
    (h : (prettyAt depth v).toList ++ r = (prettyAt depth w).toList ++ r') :
    v = w ∧ r = r' := by
  have hdistinct : Distinct v := by
    clear h
    induction hv with
    | str s => exact distinct_str s
    | object _ ih => exact distinct_object ih
  exact hdistinct w depth r r' hw h

theorem pretty_inj {v w : Json} (hv : Textual v) (hw : Textual w)
    (h : v.pretty = w.pretty) : v = w := by
  have htexts : (prettyAt 0 v).toList ++ [] = (prettyAt 0 w).toList ++ [] :=
    congrArg (String.toList · ++ []) h
  exact (prettyAt_append_inj hv hw 0 htexts).1

end Json

/-! ## Trees of terms -/

open Json (Textual)

theorem textual_members {members : List (String × Json)}
    (h : ∀ v ∈ members.map Prod.snd, Textual v) : Textual (.object members) :=
  .object fun m hm => h m.2 (List.mem_map_of_mem hm)

theorem textual_nameOutline (x : Name) : Textual (nameOutline x) := by
  apply textual_members
  simp [Textual.str]

namespace Term

theorem textual_outline (t : Term) : Textual t.outline := by
  induction t with
  | var x => exact textual_nameOutline x
  | abs x b ih =>
      apply textual_members
      simp [Textual.str, textual_nameOutline, ih]
  | app f a ihf iha =>
      apply textual_members
      simp [Textual.str, ihf, iha]

/-- Trees of different terms are different values. -/
theorem outline_inj {t u : Term} (h : t.outline = u.outline) : t = u := by
  induction t generalizing u with
  | var x => cases u <;> simp_all [outline, nameOutline]
  | abs x b ih =>
      cases u with
      | abs y c =>
          simp only [outline, nameOutline, Json.object.injEq, List.cons.injEq, Prod.mk.injEq,
            Json.str.injEq, true_and, and_true] at h
          rw [h.1, ih h.2]
      | var y => simp [outline, nameOutline] at h
      | app g c => simp [outline] at h
  | app f a ihf iha =>
      cases u with
      | app g c =>
          simp only [outline, Json.object.injEq, List.cons.injEq, Prod.mk.injEq, true_and,
            and_true] at h
          rw [ihf h.1, iha h.2]
      | var y => simp [outline, nameOutline] at h
      | abs y c => simp [outline] at h

/-- **The JSON text of a term's tree determines the term**, whatever its names are. -/
theorem pretty_outline_inj {t u : Term} :
    t.outline.pretty = u.outline.pretty ↔ t = u := by
  constructor
  · intro h
    exact outline_inj (Json.pretty_inj t.textual_outline u.textual_outline h)
  · intro h
    rw [h]

end Term

end UntypedLambda
