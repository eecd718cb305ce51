import GraphicScore.Proofs.Reading.Expression
import GraphicScore.Proofs.Reading.Sequence

/-!
# Reading statements by the grammar

Coordinates and options are the items of a list, and statements are those of a sequence. What an item
adds to the state says which checks are made on the way.
-/

namespace GraphicScore

namespace Reading

/-! ## arguments -/

/-- Behind an argument; an arrow would make an identifier the name of an option. -/
def EndsArgument (t : Token) : Prop := EndsBefore .sum false t ∧ t ≠ .arrow

def optionNameOf? : Token → Token → Option String
  | .symbol name, _ => some name
  | .identifier name, .arrow => some name
  | _, _ => none

theorem optionNameOf?_eq_some {t t' : Token} {name : String} :
    optionNameOf? t t' = some name ↔ t = .symbol name ∨ t = .identifier name ∧ t' = .arrow := by
  fun_cases optionNameOf? t t' <;> simp_all

section
variable {r r' r₀ r₁ : Reader} {name? : Option String}

theorem optionName?_sound (h : optionName? r = .ok name? r₀) :
    r₀.current = r.current ∧ r₀.depth = r.depth ∧ ∀ {r₁}, advance r₀ = .ok () r₁ →
      advance r = .ok () r₁ ∧ name? = optionNameOf? r.current.value r₁.current.value := by
  rw [optionName?, token_bind] at h
  cases ht : r.current.value with
  | identifier name =>
    simp only [ht, bind_eq_ok, pure_eq_ok] at h
    obtain ⟨t, _, hpeek, rfl, rfl⟩ := h
    obtain ⟨r₂, hr, hr₀, rfl, hc, hd⟩ := advance_of_peek hpeek
    refine ⟨hc, hd, fun hm => ?_⟩
    cases hm.symm.trans hr₀
    refine ⟨hr, ?_⟩
    cases r₂.current.value <;> simp [optionNameOf?]
  | _ =>
    simp only [ht, pure_eq_ok] at h
    obtain ⟨rfl, rfl⟩ := h
    exact ⟨rfl, rfl, fun hm => ⟨hm, rfl⟩⟩

theorem optionName?_complete (hm : advance r = .ok () r₁) :
    ∃ r₀, optionName? r = .ok (optionNameOf? r.current.value r₁.current.value) r₀ ∧
      advance r₀ = .ok () r₁ ∧ r₀.current = r.current ∧ r₀.depth = r.depth := by
  rw [optionName?, token_bind]
  cases ht : r.current.value with
  | identifier name =>
    obtain ⟨r₀, hpeek, hm₀, hc, hd⟩ := peek_of_advance hm
    refine ⟨r₀, ?_, hm₀, hc.trans ?_, hd⟩
    · simp only [bind_eq_ok, pure_eq_ok]
      refine ⟨_, r₀, hpeek, ?_, rfl⟩
      cases r₁.current.value <;> simp [optionNameOf?]
    · rfl
  | _ => exact ⟨r, rfl, hm, rfl, rfl⟩

end

end Reading

/-- Adds an argument, if it may stand behind those read before it. -/
def Arguments.add? (read : Arguments) : Expr ⊕ String × Expr → Option Arguments
  | .inl e => if read.options.isEmpty then some { read with coordinates := read.coordinates ++ [e] } else none
  | .inr (name, e) =>
    if read.options.contains name then none else some { read with options := read.options.insert name e }

theorem Options.ext {a b : Options} (h : a.entries = b.entries) : a = b := by
  cases a
  cases b
  cases h
  rfl

theorem Options.contains_eq_false {o : Options} {name : String} : o.contains name = false ↔ name ∉ o.names := by
  simp [contains]

theorem Options.entries_insert {o : Options} {name : String} {e : Expr} (h : name ∉ o.names) :
    (o.insert name e).entries = o.entries ++ [(name, e)] := by
  simp [insert, h]

theorem foldlM_addArgument {args : List (Expr ⊕ String × Expr)} {read read' : Arguments} :
    args.foldlM Arguments.add? read = some read' ↔
      ∃ es entries, args = es.map .inl ++ entries.map .inr ∧ (read.options.entries ≠ [] → es = []) ∧
        read'.coordinates = read.coordinates ++ es ∧
        read'.options.entries = read.options.entries ++ entries := by
  induction args generalizing read with
  | nil =>
    constructor
    · intro h
      cases h
      exact ⟨[], [], rfl, fun _ => rfl, by simp, by simp⟩
    · intro h
      obtain ⟨es, entries, h, -, hc, ho⟩ := h
      obtain ⟨rfl, rfl⟩ : es = [] ∧ entries = [] := by simpa using h
      obtain ⟨coordinates, options⟩ := read
      obtain ⟨coordinates', options'⟩ := read'
      simp only [List.append_nil] at hc ho
      rw [hc, Options.ext ho]
      rfl
  | cons arg args ih =>
    rw [List.foldlM_cons, Option.bind_eq_bind, Option.bind_eq_some_iff]
    cases arg with
    | inl e =>
      simp only [Arguments.add?, Option.ite_none_right_eq_some, Option.some.injEq, ih]
      constructor
      · intro h
        obtain ⟨_, ⟨hempty, rfl⟩, es, entries, rfl, -, hc, ho⟩ := h
        refine ⟨e :: es, entries, rfl, fun h => absurd (List.isEmpty_iff.mp hempty) h, ?_, ho⟩
        simpa using hc
      · intro h
        obtain ⟨es, entries, h, hes, hc, ho⟩ := h
        cases es with
        | nil => cases entries <;> cases h
        | cons e' es =>
          obtain ⟨rfl, rfl⟩ : e = e' ∧ args = es.map .inl ++ entries.map .inr := by simpa using h
          have hempty : read.options.entries = [] :=
            Classical.byContradiction fun h => List.cons_ne_nil _ _ (hes h)
          exact ⟨_, ⟨List.isEmpty_iff.mpr hempty, rfl⟩, es, entries, rfl, fun h => absurd hempty h,
            by simpa using hc, ho⟩
    | inr entry =>
      obtain ⟨name, e⟩ := entry
      simp only [Arguments.add?, Option.ite_none_left_eq_some, Option.some.injEq, Bool.not_eq_true,
        Options.contains_eq_false, ih]
      constructor
      · intro h
        obtain ⟨_, ⟨hnew, rfl⟩, es, entries, rfl, hes, hc, ho⟩ := h
        have hes : es = [] := hes (by simp [Options.entries_insert hnew])
        subst hes
        refine ⟨[], (name, e) :: entries, rfl, fun _ => rfl, hc, ?_⟩
        simpa [Options.entries_insert hnew] using ho
      · intro h
        obtain ⟨es, entries, h, hes, hc, ho⟩ := h
        cases es with
        | cons e' es => cases h
        | nil =>
          cases entries with
          | nil => cases h
          | cons entry entries =>
            obtain ⟨rfl, rfl⟩ : (name, e) = entry ∧ args = entries.map .inr := by simpa using h
            -- the names of the result are distinct, so this one was not there before
            have hnew : name ∉ read.options.names := by
              have := read'.options.distinct
              rw [ho, List.map_append, List.map_cons, List.nodup_append] at this
              exact fun hmem => this.2.2 name hmem name (List.mem_cons_self ..) rfl
            exact ⟨_, ⟨hnew, rfl⟩, [], entries, rfl, fun _ => rfl, hc,
              by simpa [Options.entries_insert hnew] using ho⟩

namespace Reading

section
variable {config : Config} {read read' : Arguments} {name : String} {r r' : Reader}

theorem option_eq_ok :
    option config read name r = .ok read' r' ↔
      ∃ r₁ r₂ n e, advance r = .ok () r₁ ∧ r₁.Passes (.arrow :: n) r₂ ∧ Newlines n ∧
        r₂.current.value ≠ .newline ∧ expression config r₂ = .ok e r' ∧
        read.add? (.inr (name, e)) = some read' := by
  simp only [option, current_bind, bind_eq_ok, expect_eq_ok, skipNewlines_eq_ok]
  constructor
  · intro h
    obtain ⟨_, r₁, hm, _, _, ⟨harrow, hm₁⟩, _, r₂, ⟨n, hn, newlines, hstop⟩, e, r₃, he, h⟩ := h
    refine ⟨r₁, r₂, n, e, hm, harrow ▸ .cons hm₁ hn, newlines, hstop, ?_⟩
    cases hc : read.options.contains name with
    | true => simp [hc] at h
    | false =>
      simp only [hc, Bool.false_eq_true, if_false, pure_eq_ok] at h
      obtain ⟨rfl, rfl⟩ := h
      exact ⟨he, by simp [Arguments.add?, hc]⟩
  · intro h
    obtain ⟨r₁, r₂, n, e, hm, hn, newlines, hstop, he, hadd⟩ := h
    obtain ⟨harrow, r₃, hm₁, hn⟩ := Reader.passes_cons.mp hn
    refine ⟨(), r₁, hm, (), r₃, ⟨harrow, hm₁⟩, (), r₂, ⟨n, hn, newlines, hstop⟩, e, r', he, ?_⟩
    cases hc : read.options.contains name with
    | true => simp [Arguments.add?, hc] at hadd
    | false =>
      simp only [Arguments.add?, hc, Bool.false_eq_true, if_false, Option.some.injEq] at hadd
      simp [hadd]

theorem coordinate_eq_ok :
    coordinate config read r = .ok read' r' ↔
      ∃ e, expression config r = .ok e r' ∧ read.add? (.inl e) = some read' := by
  simp only [coordinate, bind_eq_ok, require_eq_ok, pure_eq_ok, Arguments.add?, Option.ite_none_right_eq_some,
    Option.some.injEq]
  constructor
  · intro h
    obtain ⟨_, _, ⟨hempty, rfl⟩, e, _, he, rfl, rfl⟩ := h
    exact ⟨e, he, hempty, rfl⟩
  · intro h
    obtain ⟨e, he, hempty, rfl⟩ := h
    exact ⟨(), r, ⟨hempty, rfl⟩, e, r', he, rfl, rfl⟩

end

section
variable {config : Config} {w : List Token}

/-- The second token of a coordinate is no arrow, nor is the one behind a coordinate of one token. -/
theorem optionNameOf?_of_coordinate {r r₁ r' : Reader} {e : Expr} (he : Derives config .sum false w e)
    (hw : r.Passes w r') (hm : advance r = .ok () r₁) (hr' : r'.current.value ≠ .arrow) :
    optionNameOf? r.current.value r₁.current.value = none := by
  obtain ⟨t, v, rfl, ht⟩ := he.exists_cons
  obtain ⟨rfl, r₂, hm', hv⟩ := Reader.passes_cons.mp hw
  cases hm.symm.trans hm'
  have hnext : r₁.current.value ≠ .arrow := by
    cases v with
    | nil => exact Reader.passes_nil.mp hv ▸ hr'
    | cons t' v =>
      have := he.forall_inExpression t' (by simp)
      rw [(Reader.passes_cons.mp hv).1]
      rintro rfl
      cases this
  revert hnext ht
  fun_cases optionNameOf? r.current.value r₁.current.value <;> simp_all [Token.startsExpression]

theorem endsArgument_comma : EndsArgument .comma :=
  ⟨endsBefore_of_no_operator (by decide) (by decide) rfl rfl, by decide⟩

theorem reads_argument :
    ReadsItem (argument config) (ArgumentWord config) Arguments.add? EndsArgument where
  sound {read read' r r'} hd h := by
    obtain ⟨name?, r₀, hname, h⟩ := bind_eq_ok.mp h
    obtain ⟨hc₀, hd₀, hmove⟩ := optionName?_sound hname
    cases name? with
    | some name =>
      obtain ⟨r₁, r₂, n, e, hm, hn, newlines, -, he, hadd⟩ := option_eq_ok.mp h
      obtain ⟨hm, hof⟩ := hmove hm
      have hd₂ : r₂.depth = 0 := by
        rw [hn.depth_eq, depth_of_advance hm, hd]
      obtain ⟨w, hw, he⟩ := expression_sound hd₂ he
      refine ⟨r.current.value :: .arrow :: (n ++ w), _, ?_, .option ?_ newlines he, hadd⟩
      · exact .cons hm (Reader.passes_append.mpr ⟨r₂, hn, hw⟩)
      · exact (optionNameOf?_eq_some.mp hof.symm).imp id And.left
    | none =>
      obtain ⟨e, he, hadd⟩ := coordinate_eq_ok.mp h
      obtain ⟨w, hw, he⟩ := expression_sound (hd₀.trans hd) he
      obtain ⟨t, v, rfl, -⟩ := he.exists_cons
      obtain ⟨ht, r₁, hm, hv⟩ := Reader.passes_cons.mp hw
      refine ⟨t :: v, _, ?_, .coordinate he, hadd⟩
      rw [← ht, hc₀]
      exact .cons (hmove hm).1 hv
  complete {read read' r r' w arg} hd h hadd hw hr' := by
    obtain ⟨t, v, rfl, -⟩ := h.exists_cons
    obtain ⟨hcur, r₁, hm, hv⟩ := Reader.passes_cons.mp hw
    -- the look ahead for an arrow leaves the same tokens to be read
    obtain ⟨r₀, hname, hm₀, hc₀, hd₀⟩ := optionName?_complete hm
    have hw₀ : r₀.Passes (t :: v) r' := hcur ▸ hc₀ ▸ .cons hm₀ hv
    rw [argument, bind_of_ok hname]
    cases h with
    | coordinate he =>
      rw [optionNameOf?_of_coordinate he hw hm hr'.2]
      exact coordinate_eq_ok.mpr ⟨_, expression_complete (hd₀.trans hd) he hw₀ hr'.1, hadd⟩
    | @option t n w name e ht newlines he =>
      have harrow := (Reader.passes_cons.mp hv).1
      rw [optionNameOf?_eq_some.mpr ((hcur ▸ ht).imp id fun h => ⟨h, harrow⟩)]
      obtain ⟨r₂, hn, hw⟩ := Reader.passes_append.mp (show r₁.Passes ((.arrow :: n) ++ w) r' from hv)
      have hd₂ : r₂.depth = 0 := by
        rw [hn.depth_eq, depth_of_advance hm, hd]
      have hstop : r₂.current.value ≠ .newline := by
        obtain ⟨t, v, rfl, hstart⟩ := he.exists_cons
        rw [(Reader.passes_cons.mp hw).1]
        rintro rfl
        cases hstart
      exact option_eq_ok.mpr ⟨r₁, r₂, n, e, hm₀, hn, newlines, hstop, expression_complete hd₂ he hw hr'.1, hadd⟩
  head h := by
    obtain ⟨t, v, rfl, ht⟩ := h.exists_cons
    refine ⟨t, v, rfl, ?_⟩
    rcases ht with ht | ⟨name, rfl⟩
    · cases t <;> simp_all [Token.startsExpression, Token.isSeparator]
    · simp [Token.isSeparator]

end

/-! ## statements -/

def EndsStatement (t : Token) : Prop := EndsArgument t ∧ t ≠ .comma

theorem feature?_eq_some {es : List Expr} {options : Options} {l : Line} :
    FeatureKind.feature? .line es options = some (.line l) ↔
      es = [l.xstart, l.xend, l.ystart, l.yend] ∧ options = l.options := by
  obtain ⟨xstart, xend, ystart, yend, options'⟩ := l
  fun_cases FeatureKind.feature? .line es options <;> simp_all [and_assoc]

theorem statement_eq_ok {config : Config} {position : Position} {l : Line} {r r' : Reader} :
    statement config position .line r = .ok (.line l) r' ↔
      endsBare r.current.value = false ∧ ∃ read, arguments config r = .ok read r' ∧
        read.coordinates = [l.xstart, l.xend, l.ystart, l.yend] ∧ read.options = l.options := by
  rw [statement, token_bind]
  cases endsBare r.current.value with
  | true => simp [FeatureKind.feature?]
  | false =>
    simp only [Bool.false_eq_true, if_false, bind_eq_ok, true_and, ← feature?_eq_some]
    constructor
    · intro h
      obtain ⟨read, r₁, hargs, h⟩ := h
      cases hf : FeatureKind.feature? .line read.coordinates read.options with
      | none => simp [hf] at h
      | some f =>
        rw [hf] at h
        obtain ⟨rfl, rfl⟩ := pure_eq_ok.mp h
        exact ⟨read, hargs, hf⟩
    · intro h
      obtain ⟨read, hargs, hf⟩ := h
      exact ⟨read, r', hargs, by rw [hf]; rfl⟩

theorem feature_eq_ok {config : Config} {f : Feature} {r r' : Reader} :
    feature config r = .ok f r' ↔
      r.current.value = .identifier "line" ∧ ∃ r₁, advance r = .ok () r₁ ∧
        statement config r.current.position .line r₁ = .ok f r' := by
  rw [feature, current_bind]
  obtain ⟨⟨position, t⟩, ahead, feed, depth, notes⟩ := r
  cases t with
  | identifier keyword =>
    by_cases hk : keyword = "line"
    · subst hk
      show (advance >>= fun _ => statement config position .line) _ = _ ↔ _
      simp only [bind_eq_ok, true_and]
      exact ⟨fun ⟨_, h⟩ => h, fun h => ⟨(), h⟩⟩
    · have hkind : FeatureKind.ofKeyword? keyword = none := by
        fun_cases FeatureKind.ofKeyword? keyword <;> simp_all
      simp [hkind, hk]
  | _ => simp

section
variable {config : Config}

theorem endsBare_of_argument {w : List Token} {arg : Expr ⊕ String × Expr} {t : Token}
    (h : ArgumentWord config w arg) (ht : t ∈ w.head?) (hend : t ≠ .identifier "end") : endsBare t = false := by
  obtain ⟨t, v, rfl, hstart⟩ := h.exists_cons
  cases ht
  rcases hstart with hstart | ⟨name, rfl⟩
  · cases t <;> simp_all [Token.startsExpression, endsBare, Token.isSeparator]
  · simp [endsBare, Token.isSeparator]

theorem reads_statement (openedAt : Nat) :
    ReadsItem (bodyItem config openedAt) (FeatureWord config) (fun features f => some (features ++ [f]))
      EndsStatement where
  sound {features features' r r'} hd h := by
    simp only [bodyItem, token_bind, bind_eq_ok, require_eq_ok, pure_eq_ok] at h
    obtain ⟨_, _, ⟨-, rfl⟩, ⟨l⟩, _, hf, rfl, rfl⟩ := h
    obtain ⟨ht, r₁, hm, hs⟩ := feature_eq_ok.mp hf
    obtain ⟨hbare, read, hargs, hc, ho⟩ := statement_eq_ok.mp hs
    have hd₁ : r₁.depth = 0 := (depth_of_advance hm).trans hd
    obtain ⟨w, args, hw, hargs, hadd, -⟩ := list_sound reads_argument hd₁ hargs
    obtain ⟨es, entries, rfl, -, hes, hentries⟩ := foldlM_addArgument.mp hadd
    refine ⟨.identifier "line" :: w, .line l, ht ▸ .cons hm hw, .line ?_ ?_, rfl⟩
    · rw [← hc, ← ho, hes, hentries]
      exact hargs
    · obtain ⟨v, v', arg, rfl, hv⟩ := hargs.exists_head
      obtain ⟨t, v, rfl, -⟩ := hv.exists_cons
      rw [(Reader.passes_cons.mp hw).1] at hbare
      intro h
      cases h
      simp [endsBare] at hbare
  complete {features features' r r' w f} hd h hadd hw hr' := by
    cases hadd
    obtain @⟨w, l, hargs, hend⟩ := h
    obtain ⟨ht, r₁, hm, hw⟩ := Reader.passes_cons.mp hw
    have hd₁ : r₁.depth = 0 := (depth_of_advance hm).trans hd
    let coordinates := [l.xstart, l.xend, l.ystart, l.yend]
    have hadd : (coordinates.map Sum.inl ++ l.options.entries.map Sum.inr).foldlM Arguments.add? {} =
        some ⟨coordinates, l.options⟩ :=
      foldlM_addArgument.mpr ⟨_, _, rfl, fun h => absurd rfl h, rfl, rfl⟩
    have hread := list_complete reads_argument endsArgument_comma hd₁ hargs hadd hw hr'.2 hr'.1
    have hbare : endsBare r₁.current.value = false := by
      obtain ⟨v, v', arg, rfl, hv⟩ := hargs.exists_head
      obtain ⟨t, v, rfl, -⟩ := hv.exists_cons
      rw [(Reader.passes_cons.mp hw).1]
      exact endsBare_of_argument hv rfl fun e => hend (by rw [e]; rfl)
    have hf : feature config r = .ok (.line l) r' :=
      feature_eq_ok.mpr ⟨ht, r₁, hm, statement_eq_ok.mpr ⟨hbare, _, hread, rfl, rfl⟩⟩
    simp only [bodyItem, token_bind, bind_eq_ok, require_eq_ok, pure_eq_ok]
    exact ⟨(), r, ⟨by rw [ht]; rfl, rfl⟩, _, r', hf, rfl, rfl⟩
  head h := by
    cases h
    exact ⟨_, _, rfl, by decide, by decide⟩

end

end Reading

end GraphicScore
