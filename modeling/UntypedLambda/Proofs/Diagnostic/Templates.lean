import UntypedLambda.Diagnostic.Template
import UntypedLambda.Proofs.Diagnostic.Braces

/-!
# Templates that stand for themselves

A template without braces stands for itself.  If its snippets have no braces and
none of its fields asks for a part by a name, then no other template does.  The
braces of a template either are doubled, and then half of them are left, or belong
to fields, and then none is left: the name of a field that can be filled has no
braces, its layout is balanced, and what stands in the field has no braces either.
So a template has the braces of what it is filled to twice over, and as many of one
sort besides as of the other (`Surplus`).  A layout with fields of its own is filled
in the same way, which keeps it balanced.

What an inspection finds under a name may be shown with braces.  Nothing is assumed
of it here: fields that ask for parts by their names are set apart (`asksByName`).

## Main results

* `past_of_takeField`: what a field consists of.
* `braceless_of_fill_field`: what stands in a field.
* `thins_fillWithin`: the braces of a template and of what it is filled to.
* `fill_eq_self_iff`: the templates that stand for themselves.
-/

namespace UntypedLambda.Diagnostic.Template

/-! ## Steps of filling -/

variable {α β : Type} {st st' : Progress}

theorem run_bind_eq_ok {x : Fill α} {f : α → Fill β} {b : β} :
    (x >>= f).run st = .ok (b, st') ↔
      ∃ a st₁, x.run st = .ok (a, st₁) ∧ (f a).run st₁ = .ok (b, st') := by
  rw [StateT.run_bind, bind_eq_ok]
  exact ⟨fun ⟨⟨a, st₁⟩, hx, hf⟩ => ⟨a, st₁, hx, hf⟩, fun ⟨a, st₁, hx, hf⟩ => ⟨(a, st₁), hx, hf⟩⟩

theorem run_pure_eq_ok {a b : α} :
    (pure a : Fill α).run st = .ok (b, st') ↔ a = b ∧ st = st' := by
  show Except.ok (a, st) = .ok (b, st') ↔ _
  simp

theorem run_lift_eq_ok {x : Except Error α} {a : α} :
    (liftM x : Fill α).run st = .ok (a, st') ↔ x = .ok a ∧ st = st' := by
  cases x with
  | error e =>
      show Except.error e = .ok (a, st') ↔ _
      simp
  | ok b =>
      show Except.ok (b, st) = .ok (a, st') ↔ _
      simp

theorem run_refuse_eq_ok {c : Prop} [Decidable c] {e : Error} {f : β → Fill α}
    {x : Fill α} {a : α} :
    (if c then throw e >>= f else x).run st = .ok (a, st') ↔
      ¬ c ∧ x.run st = .ok (a, st') := by
  by_cases hc : c
  · rw [if_pos hc]
    show Except.error e = .ok (a, st') ↔ _
    simp [hc]
  · rw [if_neg hc]
    simp [hc]

/-! ## Reading a field -/

/-- Only a closing brace can end a name as a brace. -/
theorem takeName_eq {cs name rest : List Char} {inBrackets : Bool} {last : Char}
    (h : takeName inBrackets cs = .ok (name, last, rest)) :
    cs = name ++ last :: rest ∧ (last ≠ '\x7d' → Braceless [last]) := by
  induction cs generalizing inBrackets name with
  | nil => cases h
  | cons c cs ih =>
      simp only [takeName] at h
      split at h
      · cases h
      · split at h
        · next hlast =>
            cases h
            have hmem := of_decide_eq_true (Bool.and_eq_true_iff.1 hlast).2
            simp only [List.mem_cons, List.not_mem_nil, or_false] at hmem
            refine ⟨rfl, fun hne => ?_⟩
            rcases hmem.resolve_left hne with rfl | rfl <;> decide
        · obtain ⟨⟨name', last', rest'⟩, hparts, h⟩ := map_eq_ok.1 h
          cases h
          obtain ⟨rfl, hlast⟩ := ih hparts
          exact ⟨rfl, hlast⟩

/-- In a layout all braces are closed that are opened, and `depth` more. -/
theorem takeLayout_eq {cs layout rest : List Char} {depth : Nat}
    (h : takeLayout depth cs = .ok (layout, rest)) :
    cs = layout ++ '\x7d' :: rest ∧
      layout.count '\x7b' + depth = layout.count '\x7d' := by
  induction cs generalizing layout depth with
  | nil => cases h
  | cons c cs ih =>
      have hgo : ∀ {d}, (takeLayout d cs).map (fun p => (c :: p.1, p.2)) = .ok (layout, rest) →
          ∃ layout', layout = c :: layout' ∧ c :: cs = layout ++ '\x7d' :: rest ∧
            layout'.count '\x7b' + d = layout'.count '\x7d' := by
        intro d hd
        obtain ⟨⟨layout', rest'⟩, hparts, hlayout⟩ := map_eq_ok.1 hd
        cases hlayout
        obtain ⟨hcs, hcount⟩ := ih hparts
        exact ⟨layout', rfl, by rw [hcs, List.cons_append], hcount⟩
      simp only [takeLayout] at h
      split at h
      · next hopen =>
          obtain ⟨layout', rfl, hcs, hcount⟩ := hgo h
          refine ⟨hcs, ?_⟩
          rw [hopen, List.count_cons_self, List.count_cons_of_ne (by decide)]
          omega
      · next hopen =>
          split at h
          · next hclose =>
              split at h
              · cases h
                exact ⟨by rw [hclose, List.nil_append], rfl⟩
              · obtain ⟨layout', rfl, hcs, hcount⟩ := hgo h
                refine ⟨hcs, ?_⟩
                rw [hclose, List.count_cons_self, List.count_cons_of_ne (by decide)]
                omega
          · next hclose =>
              obtain ⟨layout', rfl, hcs, hcount⟩ := hgo h
              refine ⟨hcs, ?_⟩
              rw [List.count_cons_of_ne hopen, List.count_cons_of_ne hclose, hcount]

theorem takeFieldLayout_eq {name cs rest : List Char} {conversion : Option Char} {f : Field}
    (h : takeFieldLayout name conversion cs = .ok (f, rest)) :
    f.name = name ∧ f.conversion = conversion ∧ cs = f.layout ++ '\x7d' :: rest ∧
      Balanced f.layout := by
  obtain ⟨⟨layout, rest'⟩, hlayout, h⟩ := map_eq_ok.1 h
  cases h
  obtain ⟨hcs, hcount⟩ := takeLayout_eq hlayout
  exact ⟨rfl, rfl, hcs, hcount⟩

/-- A field has a balanced layout, and before that only its name, the letter behind an
exclamation mark, and marks without braces. -/
theorem past_of_takeField {cs rest : List Char} {f : Field}
    (h : takeField cs = .ok (f, rest)) :
    Balanced f.layout ∧ (Braceless f.name → Braceless f.conversion.toList →
      Past cs (f.layout ++ '\x7d' :: rest)) := by
  have hmark : ∀ {c : Char} {ds : List Char}, Braceless [c] → Past (c :: ds) ds :=
    fun hc => .cons (braceless_singleton.1 hc) (.refl _)
  unfold takeField at h
  split at h
  case h_1 => cases h
  case h_2 name _ hname =>
      cases h
      obtain ⟨rfl, -⟩ := takeName_eq hname
      exact ⟨rfl, fun hf _ => ⟨name, hf, rfl⟩⟩
  case h_3 name _ hname =>
      obtain ⟨rfl, -, rfl, hbalanced⟩ := takeFieldLayout_eq h
      obtain ⟨rfl, -⟩ := takeName_eq hname
      exact ⟨hbalanced, fun hf _ => .trans ⟨f.name, hf, rfl⟩ (hmark (by decide))⟩
  case h_4 => cases h
  case h_5 => cases h
  case h_6 name _ _ _ hne _ hname =>
      cases h
      obtain ⟨rfl, hlast⟩ := takeName_eq hname
      exact ⟨rfl, fun hf hconversion =>
        .trans ⟨name, hf, rfl⟩ (.trans (hmark (hlast hne)) (hmark hconversion))⟩
  case h_7 name _ _ _ hne _ hname =>
      obtain ⟨rfl, hc, rfl, hbalanced⟩ := takeFieldLayout_eq h
      obtain ⟨rfl, hlast⟩ := takeName_eq hname
      refine ⟨hbalanced, fun hf hconversion => ?_⟩
      rw [hc] at hconversion
      exact .trans ⟨f.name, hf, rfl⟩ (.trans (hmark (hlast hne))
        (.trans (hmark hconversion) (hmark (by decide))))
  case h_8 => cases h

/-- How a template is read: characters stand for themselves, doubled braces for
single ones, and nothing follows what cannot be read. -/
inductive Reads : List Char → List Piece → Prop
  | nil : Reads [] []
  | char {c : Char} {rest : List Char} {ps : List Piece} (hc : Braceless [c])
      (h : Reads rest ps) : Reads (c :: rest) (.char c :: ps)
  | brace {c : Char} {rest : List Char} {ps : List Piece} (hc : c = '\x7b' ∨ c = '\x7d')
      (h : Reads rest ps) : Reads (c :: c :: rest) (.char c :: ps)
  | field {f : Field} {rest rest' : List Char} {ps : List Piece}
      (hf : takeField rest = .ok (f, rest')) (h : Reads rest' ps) :
      Reads ('\x7b' :: rest) (.field f :: ps)
  | fault (cs : List Char) (e : Error) : Reads cs [.fault e]

theorem reads_pieces (cs : List Char) : Reads cs (pieces cs) := by
  fun_induction pieces cs with
  | case1 => exact .nil
  | case2 rest ih => exact .brace (.inl rfl) ih
  | case3 rest ih => exact .brace (.inr rfl) ih
  | case4 => exact .fault _ _
  | case5 => exact .fault _ _
  | case6 => exact .fault _ _
  | case7 rest _ _ f rest' hf ih => exact .field hf ih
  | case8 c rest _ _ hclose _ hopen ih =>
      exact .char (braceless_singleton.2 ⟨hopen, hclose⟩) ih

/-! ## Filling a field -/

theorem braceless_of_readCount? {cs : List Char} {n : Nat}
    (h : readCount? cs = .ok (some n)) : Braceless cs := by
  unfold readCount? at h
  split at h
  · cases h
  · next count rest hcount =>
      obtain ⟨hrest, -⟩ := Option.ite_none_right_eq_some.1 (Except.ok.inj h)
      exact (Layout.past_takeCount hcount).braceless (hrest ▸ braceless_nil)

/-- The name of a snippet is empty or a number. -/
theorem mem_of_lookup {snippets : List String} {name : List Char} {s : String}
    (h : (lookup snippets name).run st = .ok (s, st')) : s ∈ snippets ∧ Braceless name := by
  unfold lookup at h
  obtain ⟨number, st₁, hnumber, hchecked⟩ := run_bind_eq_ok.1 h
  obtain ⟨hread, -⟩ := run_lift_eq_ok.1 hnumber
  obtain ⟨hnamed, htaken⟩ := run_refuse_eq_ok.1 hchecked
  obtain ⟨index, st₂, -, hfound⟩ := run_bind_eq_ok.1 htaken
  constructor
  · split at hfound
    · next hget =>
        obtain ⟨rfl, -⟩ := run_pure_eq_ok.1 hfound
        exact List.mem_of_getElem? hget
    · cases hfound
  · cases number with
    | some n => exact braceless_of_readCount? hread
    | none =>
        have hempty : name = [] := by simpa using hnamed
        exact hempty ▸ braceless_nil

/-- A name that asks for nothing but parts with numbers has no braces. -/
theorem braceless_of_readParts {cs : List Char}
    (hparts : ∀ p ∈ (readParts cs).1, ∃ n, p = .numbered n)
    (hfault : (readParts cs).2 = none) : Braceless cs := by
  fun_induction readParts cs with
  | case1 => exact braceless_nil
  | case2 => cases hfault
  | case3 rest name hname parts fault hrest ih =>
      obtain ⟨n, hn⟩ := hparts _ List.mem_cons_self
      cases hn
  | case4 => cases hfault
  | case5 => cases hfault
  | case6 rest item number hnumber hitem parts fault hrest ih =>
      rw [hrest] at ih
      have hafter := ih (fun p hp => hparts p (List.mem_cons_of_mem _ hp)) hfault
      obtain ⟨n, rfl⟩ : ∃ n, number = some n := by
        obtain ⟨n, hn⟩ := hparts _ List.mem_cons_self
        cases number with
        | none => cases hn
        | some n => exact ⟨n, rfl⟩
      have hclosed : Braceless (rest.dropWhile fun c => decide (c ≠ ']')) := by
        have hhead := List.head?_dropWhile_not (fun c => decide (c ≠ ']')) rest
        cases hdrop : rest.dropWhile fun c => decide (c ≠ ']') with
        | nil => exact braceless_nil
        | cons d ds =>
            rw [hdrop] at hafter hhead
            have hd : d = ']' := by simpa using hhead
            exact braceless_cons.2 ⟨hd ▸ by decide, hafter⟩
      rw [← List.takeWhile_append_dropWhile (p := fun c => decide (c ≠ ']')) (l := rest)]
      exact braceless_cons.2 ⟨by decide,
        braceless_append.2 ⟨braceless_of_readCount? hnumber, hclosed⟩⟩
  | case7 => cases hfault

/-- Whether a field asks for a part by a name. -/
def Field.asksByName (f : Field) : Bool := f.parts.1.any Part.isNamed

/-- What a field asks of a text without braces, if it asks for nothing by a name, is a
text without braces, and is asked for without braces. -/
theorem braceless_of_select {inspect : Inspection} {f : Field} {s : String} {v : Value}
    (hs : Braceless s.toList) (hf : f.asksByName = false) (h : f.select inspect s = .ok v) :
    (∃ t, v = .text t ∧ Braceless t.toList) ∧
      Braceless (f.name.dropWhile fun c => c ∉ partMarks) := by
  unfold Field.select at h
  obtain ⟨v', hfollow, h⟩ := bind_eq_ok.1 h
  obtain ⟨hnumbered, t, rfl, ht⟩ := Value.follow_eq_text hf (mapError_eq_ok.1 hfollow)
  split at h
  · next hfault =>
      cases h
      exact ⟨⟨t, rfl, fun c hc => hs c (ht c hc)⟩, braceless_of_readParts hnumbered hfault⟩
  · cases h

theorem braceless_of_convert {s : String} {v : Value} {conversion : Option Char}
    (hs : Braceless s.toList) (h : convert (.text s) conversion = .ok v) :
    (∃ t, v = .text t ∧ Braceless t.toList) ∧ Braceless conversion.toList := by
  unfold convert at h
  split at h <;> cases h
  · exact ⟨⟨s, rfl, hs⟩, by decide⟩
  · exact ⟨⟨s, rfl, hs⟩, by decide⟩
  · exact ⟨⟨_, rfl, hs⟩, by decide⟩
  · exact ⟨⟨_, rfl, braceless_quoted hs⟩, by decide⟩
  · exact ⟨⟨_, rfl, braceless_asciiOnly (braceless_quoted hs)⟩, by decide⟩

/-! ## The braces of a template -/

/-- A text has the braces of another one twice over, and `k` more of either sort. -/
def Surplus (k : Nat) (cs out : List Char) : Prop :=
  cs.count '\x7b' = 2 * out.count '\x7b' + k ∧ cs.count '\x7d' = 2 * out.count '\x7d' + k

theorem Surplus.balanced {k : Nat} {cs out : List Char} (h : Surplus k cs out)
    (hcs : Balanced cs) : Balanced out := by
  obtain ⟨hopen, hclose⟩ := h
  unfold Balanced at hcs ⊢
  omega

theorem Surplus.append {k l : Nat} {cs ds out out' : List Char} (h : Surplus k cs out)
    (h' : Surplus l ds out') : Surplus (k + l) (cs ++ ds) (out ++ out') := by
  obtain ⟨hopen, hclose⟩ := h
  obtain ⟨hopen', hclose'⟩ := h'
  unfold Surplus
  simp only [List.count_append]
  omega

theorem surplus_of_braceless {cs : List Char} (h : Braceless cs) : Surplus 0 cs cs := by
  obtain ⟨hopen, hclose⟩ := braceless_iff_count.1 h
  exact ⟨by rw [hopen], by rw [hclose]⟩

/-- Of a doubled brace one is left. -/
theorem surplus_doubled {c : Char} (hc : c = '\x7b' ∨ c = '\x7d') :
    Surplus 0 [c, c] [c] := by
  rcases hc with rfl | rfl <;> exact ⟨by decide, by decide⟩

/-- Of the braces of a field none is left. -/
theorem Surplus.field {k : Nat} {cs layout rest shown out : List Char}
    (h : Surplus k rest out) (hpast : Past cs (layout ++ '\x7d' :: rest))
    (hlayout : Balanced layout) (hshown : Braceless shown) :
    Surplus (layout.count '\x7b' + 1 + k) ('\x7b' :: cs) (shown ++ out) := by
  obtain ⟨hopen, hclose⟩ := h
  obtain ⟨hopened, hclosed⟩ := hpast.count
  obtain ⟨hnone, hnone'⟩ := braceless_iff_count.1 hshown
  have hne : '\x7b' ≠ '\x7d' := by decide
  unfold Balanced at hlayout
  rw [List.count_append, List.count_cons_of_ne hne.symm] at hopened
  rw [List.count_append, List.count_cons_self] at hclosed
  constructor
  · rw [List.count_cons_self, List.count_append]
    omega
  · rw [List.count_cons_of_ne hne, List.count_append]
    omega

/-- What is filled to a text with its own braces has none. -/
theorem Surplus.braceless {k : Nat} {cs : List Char} (h : Surplus k cs cs) :
    Braceless cs := by
  obtain ⟨hopen, hclose⟩ := h
  exact braceless_iff_count.2 ⟨by omega, by omega⟩

/-- What `expand` fills `cs` to has the braces of `cs` that are doubled once, and others
only in pairs. -/
def Thins (expand : List Char → Fill String) (cs : List Char) : Prop :=
  ∀ {st out st'}, (expand cs).run st = .ok (out, st') → ∃ k, Surplus k cs out.toList

/-- One piece after another. -/
theorem run_mapM_cons {fillPiece : Piece → Fill String} {p : Piece} {ps : List Piece}
    {parts : List String} (h : ((p :: ps).mapM fillPiece).run st = .ok (parts, st')) :
    ∃ part st₁ parts', (fillPiece p).run st = .ok (part, st₁) ∧
      (ps.mapM fillPiece).run st₁ = .ok (parts', st') ∧ parts = part :: parts' := by
  rw [List.mapM_cons] at h
  obtain ⟨part, st₁, hpart, h₁⟩ := run_bind_eq_ok.1 h
  obtain ⟨parts', st₂, hparts, h₂⟩ := run_bind_eq_ok.1 h₁
  obtain ⟨rfl, rfl⟩ := run_pure_eq_ok.1 h₂
  exact ⟨part, st₁, parts', hpart, hparts, rfl⟩

section Pieces

variable {inspect : Inspection} {snippets : List String} {expand : List Char → Fill String}
  (hsnippets : ∀ s ∈ snippets, Braceless s.toList)
include hsnippets

/-- In a field that can be filled nothing but the layout has braces, and none are
left of those. -/
theorem braceless_of_fill_field {f : Field} {shown : String} (hlayout : Balanced f.layout)
    (hasks : f.asksByName = false) (hexpand : Thins expand f.layout)
    (h : (f.fill inspect expand snippets).run st = .ok (shown, st')) :
    Braceless f.name ∧ Braceless f.conversion.toList ∧ Braceless shown.toList := by
  unfold Field.fill at h
  obtain ⟨s, st₁, hlookup, h₁⟩ := run_bind_eq_ok.1 h
  obtain ⟨part, st₂, hselect, h₂⟩ := run_bind_eq_ok.1 h₁
  obtain ⟨v, st₃, hconvert, h₃⟩ := run_bind_eq_ok.1 h₂
  obtain ⟨hmem, hname⟩ := mem_of_lookup hlookup
  obtain ⟨⟨t, rfl, ht⟩, hparts⟩ :=
    braceless_of_select (hsnippets s hmem) hasks (run_lift_eq_ok.1 hselect).1
  obtain ⟨⟨u, rfl, hu⟩, hconversion⟩ := braceless_of_convert ht (run_lift_eq_ok.1 hconvert).1
  have hfitted : ∃ layout : String, Balanced layout.toList ∧
      (Value.text u).fit layout = .ok shown := by
    dsimp only at h₃
    split at h₃
    · obtain ⟨layout, st₄, hexpanded, hfit⟩ := run_bind_eq_ok.1 h₃
      obtain ⟨k, hk⟩ := hexpand hexpanded
      exact ⟨layout, hk.balanced hlayout, mapError_eq_ok.1 (run_lift_eq_ok.1 hfit).1⟩
    · exact ⟨String.ofList f.layout, by rwa [String.toList_ofList],
        mapError_eq_ok.1 (run_lift_eq_ok.1 h₃).1⟩
  obtain ⟨layout, hbalanced, hfit⟩ := hfitted
  rw [← List.takeWhile_append_dropWhile (p := fun c => decide (c ∉ partMarks)) (l := f.name)]
  exact ⟨braceless_append.2 ⟨hname, hparts⟩, hconversion,
    Value.braceless_of_fit hu hbalanced hfit⟩

theorem surplus_of_mapM {cs : List Char} {ps : List Piece} (hread : Reads cs ps)
    (hfields : ∀ f, .field f ∈ ps → f.asksByName = false ∧ Thins expand f.layout)
    {parts : List String}
    (h : (ps.mapM (Piece.fill inspect expand snippets)).run st = .ok (parts, st')) :
    ∃ k, Surplus k cs (parts.flatMap String.toList) := by
  induction hread generalizing st parts with
  | nil =>
      obtain ⟨rfl, -⟩ := run_pure_eq_ok.1 h
      exact ⟨0, rfl, rfl⟩
  | char hc _ ih =>
      obtain ⟨part, st₁, parts', hpart, hparts, rfl⟩ := run_mapM_cons h
      obtain ⟨rfl, -⟩ := run_pure_eq_ok.1 hpart
      obtain ⟨k, hk⟩ := ih (fun f hf => hfields f (List.mem_cons_of_mem _ hf)) hparts
      rw [List.flatMap_cons, Char.toString, String.toList_singleton]
      exact ⟨_, (surplus_of_braceless hc).append hk⟩
  | brace hc _ ih =>
      obtain ⟨part, st₁, parts', hpart, hparts, rfl⟩ := run_mapM_cons h
      obtain ⟨rfl, -⟩ := run_pure_eq_ok.1 hpart
      obtain ⟨k, hk⟩ := ih (fun f hf => hfields f (List.mem_cons_of_mem _ hf)) hparts
      rw [List.flatMap_cons, Char.toString, String.toList_singleton]
      exact ⟨_, (surplus_doubled hc).append hk⟩
  | @field f _ _ _ hfield _ ih =>
      obtain ⟨shown, st₁, parts', hshown, hparts, rfl⟩ := run_mapM_cons h
      obtain ⟨k, hk⟩ := ih (fun g hg => hfields g (List.mem_cons_of_mem _ hg)) hparts
      obtain ⟨hasks, hexpand⟩ := hfields f List.mem_cons_self
      obtain ⟨hbalanced, hpast⟩ := past_of_takeField hfield
      obtain ⟨hname, hconversion, hshown⟩ :=
        braceless_of_fill_field hsnippets hbalanced hasks hexpand hshown
      rw [List.flatMap_cons]
      exact ⟨_, hk.field (hpast hname hconversion) hbalanced hshown⟩
  | fault =>
      obtain ⟨part, st₁, parts', hpart, -⟩ := run_mapM_cons h
      cases hpart

end Pieces

/-! ## Templates that ask for nothing by a name -/

/-- Whether a field of a template asks for a part by a name, or one in the layout of such
a field, and so on to less than `depth` levels. -/
def asksByNameWithin : Nat → List Char → Bool
  | 0, _ => false
  | depth + 1, cs => (pieces cs).any fun
      | .field f => f.asksByName || asksByNameWithin depth f.layout
      | _ => false

/-- Whether a field that is filled in a template asks for a part by a name. -/
def asksByName (template : String) : Bool := asksByNameWithin maxDepth template.toList

/-- What a template is filled to has the braces that are doubled in it once, and no
others. -/
theorem thins_fillWithin {inspect : Inspection} {snippets : List String}
    (hsnippets : ∀ s ∈ snippets, Braceless s.toList) {depth : Nat} {cs : List Char}
    (hasks : asksByNameWithin depth cs = false) :
    Thins (fillWithin inspect snippets depth) cs := by
  -- The layouts of the fields are filled one level further in.
  induction depth generalizing cs with
  | zero =>
      intro st out st' h
      cases h
  | succ depth ih =>
      intro st out st' h
      have hfields : ∀ f, .field f ∈ pieces cs →
          f.asksByName = false ∧ Thins (fillWithin inspect snippets depth) f.layout := by
        intro f hf
        have hf := List.any_eq_false.1 hasks _ hf
        rw [Bool.not_eq_true, Bool.or_eq_false_iff] at hf
        exact ⟨hf.1, ih hf.2⟩
      obtain ⟨parts, st₁, hparts, hjoined⟩ := run_bind_eq_ok.1 h
      obtain ⟨rfl, -⟩ := run_pure_eq_ok.1 hjoined
      rw [String.toList_join]
      exact surplus_of_mapM hsnippets (reads_pieces cs) hfields hparts

/-- A template whose fields ask for nothing by a name stands for itself exactly if it
has no braces, where snippets have none. -/
theorem fill_eq_self_iff {template : String} {snippets : List String}
    (hsnippets : ∀ s ∈ snippets, Braceless s.toList) (hasks : asksByName template = false)
    (inspect : Inspection) :
    fill template snippets inspect = .ok template ↔ Braceless template.toList := by
  refine ⟨fun h => ?_, fun h => fill_of_no_braces h snippets inspect⟩
  obtain ⟨⟨out, st⟩, hrun, rfl⟩ := map_eq_ok.1 h
  obtain ⟨k, hk⟩ := thins_fillWithin hsnippets hasks hrun
  exact hk.braceless

end UntypedLambda.Diagnostic.Template
