import GraphicScore.Proofs.Reading.Lockstep
import GraphicScore.Reading.Score

/-!
# Agreement of readings

Two runs of one reading that begin in lockstep come to the same, each reading from the place where what it reads
may begin to where that may end. Where a fault is found behind the token that it blames, that token is handed on.
-/

namespace GraphicScore

namespace Reading

section
variable {ν : Type} [Record ν] {config config' : Config} {L : Lockstep ν config config'} {d n : Nat}

/-- From where an operand is due both readings get to behind one. -/
def AgreeOperand {α : Type} (L : Lockstep ν config config') (d : Nat) (x : Recording ν α) (y : Reading α) : Prop :=
  L.Agree d (L.Here .due) x y (fun _ => L.Here .idle)

/-! ## expressions -/

section
variable {inner : Recording ν Expr} {inner' : Reading Expr}

theorem agree_chain {operator? : Token → Option Operator}
    (hop : ∀ {t op}, operator? t = some op → t = op.token) (h : AgreeOperand L d inner inner') :
    AgreeOperand L d (chain operator? inner) (chain operator? inner') := by
  unfold chain
  refine agree_bind h fun first => agree_loop (fun left n => ?_) first
  refine agree_bind (agree_frame agree_skipInsignificant fun _ _ => Nat.le_trans) fun _ => agree_token_bind fun t => ?_
  cases ht : operator? t.value with
  | none => exact agree_pure fun _ _ h => h.1.1
  | some operator =>
    have hmoved : t.value ≠ .endOfInput ∧ t.value ≠ .openParen ∧ Place.idle.after Located.value t = .due := by
      rw [Place.after_idle, hop ht]
      cases operator <;> exact ⟨Token.noConfusion, Token.noConfusion, rfl⟩
    refine agree_bind (agree_move hmoved.1 hmoved.2.1 hmoved.2.2) fun _ => ?_
    refine agree_bind (agree_frame (agree_skipNewlines (.inr rfl)) fun _ _ => Nat.lt_of_le_of_lt) fun _ => ?_
    exact agree_bind (agree_frame h fun _ _ => Nat.lt_of_le_of_lt) fun right => agree_pure fun _ _ h => h

theorem agree_literal {t : Located Token} (value? : Option Constant) (text : String) (hend : t.value ≠ .endOfInput)
    (hopen : t.value ≠ .openParen) (ht : Place.due.after Located.value t = .idle) :
    L.Agree d (L.On .due t) (literal value? text) (literal value? text) (fun _ => L.Here .idle) := by
  unfold literal
  cases value? with
  | none => exact agree_fault rfl
  | some value => exact agree_bind (agree_advance hend hopen ht) fun _ => agree_pure fun _ _ h => h

theorem agree_negated : AgreeOperand L d negated negated := by
  unfold negated
  apply agree_token_bind
  rintro ⟨position, t⟩
  cases t with
  | integer digits => exact agree_literal _ _ Token.noConfusion Token.noConfusion rfl
  | float text => exact agree_literal _ _ Token.noConfusion Token.noConfusion rfl
  | _ => exact agree_fault rfl

theorem agree_pField {position : Position} {name : String} {digits : List Char}
    (hname : pFieldDigits? name = some digits) :
    L.Agree d (L.On .due ⟨position, .identifier name⟩) (pField name digits) (pField name digits)
      (fun _ => L.Here .idle) := by
  unfold pField
  cases Literal.uint32? digits with
  | none => exact agree_fault rfl
  | some number =>
    have hafter : Place.due.after Located.value ⟨position, .identifier name⟩ = .idle := by
      simp [Place.after, hname]
    refine agree_bind (agree_require rfl) fun _ => ?_
    exact agree_bind (agree_advance Token.noConfusion Token.noConfusion hafter) fun _ => agree_pure fun _ _ h => h

/-- The check of a call stands in front of it, and is the only one that can tell two configs apart. -/
theorem agree_require_admitted {position : Position} {name : String} (hname : pFieldDigits? name = none) :
    L.Agree d
      (fun r r' => L.On .due ⟨position, .identifier name⟩ r r' ∧ ∃ found ∈ r'.ahead, found.value = .openParen)
      (require (config.admits name) (.unknownConverter name)) (require (config'.admits name) (.unknownConverter name))
      (fun _ r r' => L.On .due ⟨position, .identifier name⟩ r r' ∧ config'.admits name = true) := by
  rintro r r' hr ⟨⟨hp, hcurrent⟩, found, hahead, hfound⟩
  cases hadmits : config'.admits name with
  | true =>
    rw [L.admits hadmits]
    exact .ok ⟨hr, Nat.le_refl _, ⟨hp, hcurrent⟩, rfl⟩
  | false =>
    cases h : config.admits name with
    | true => exact .refused (L.refused h hadmits)
    | false => exact .error (L.unknown hr hp (by rw [hcurrent]) hname hahead hfound hadmits)

theorem agree_call {position : Position} {name : String} (hname : pFieldDigits? name = none)
    (h : ∀ d, AgreeOperand L d inner inner') :
    L.Agree d
      (fun r r' => L.On .due ⟨position, .identifier name⟩ r r' ∧ ∃ found ∈ r'.ahead, found.value = .openParen)
      (call config inner name) (call config' inner' name) (fun _ => L.Here .idle) := by
  have hafter : Place.due.after Located.value ⟨position, .identifier name⟩ = .named ⟨position, .identifier name⟩ := by
    simp [Place.after, hname]
  have hopened (hadmits : config'.admits name = true) :
      L.Agree d (L.Here (.named ⟨position, .identifier name⟩))
        (expect .opening .openParen >>= fun _ => parenthesized inner)
        (expect .opening .openParen >>= fun _ => parenthesized inner') (fun _ => L.Here .idle) := by
    simp only [expect, bind_assoc]
    refine agree_bind agree_demand fun _ r r' hr hdemand => ?_
    have hopen := beq_iff_eq.mp hdemand.2
    refine agree_opened hopen (by rw [Place.after_named, hopen]; rfl) ?_ h r r' hr ⟨hdemand.1, rfl⟩
    simpa [Place.called, hopen, Token.text] using hadmits
  unfold call
  refine agree_current_bind fun t t' ht => ?_
  refine agree_bind (agree_of_pre (agree_require_admitted hname) fun _ _ h => h.1) fun _ => ?_
  refine agree_of_and fun hadmits => ?_
  refine agree_bind (agree_advance Token.noConfusion Token.noConfusion hafter) fun _ => ?_
  rw [← bind_assoc, ← bind_assoc]
  refine agree_bind (hopened hadmits) fun e => ?_
  cases e.convert? ⟨name⟩ with
  | none => exact agree_faultAt ht rfl
  | some e => exact agree_pure fun _ _ h => h

theorem agree_named {position : Position} {name : String} (h : ∀ d, AgreeOperand L d inner inner') :
    L.Agree d (L.On .due ⟨position, .identifier name⟩) (named config inner name) (named config' inner' name)
      (fun _ => L.Here .idle) := by
  unfold named
  refine agree_bind (agree_peek rfl) fun next => ?_
  cases hname : pFieldDigits? name with
  | some digits =>
    cases next == .openParen with
    | true => exact agree_fault rfl
    | false => exact agree_of_pre (agree_pField hname) fun _ _ h => h.1
  | none =>
    by_cases hnext : next = .openParen
    · rw [hnext]
      exact agree_call hname h
    · simp only [beq_eq_false_iff_ne.mpr hnext]
      exact agree_fault rfl

theorem agree_primary (h : ∀ d, AgreeOperand L d inner inner') :
    AgreeOperand L d (primary config inner) (primary config' inner') := by
  unfold primary
  apply agree_token_bind
  rintro ⟨position, t⟩
  cases t with
  | integer digits => exact agree_literal _ _ Token.noConfusion Token.noConfusion rfl
  | float text => exact agree_literal _ _ Token.noConfusion Token.noConfusion rfl
  | openParen => exact agree_opened rfl rfl (List.forall_mem_nil _) h
  | identifier name => exact agree_named h
  | _ => exact agree_unexpected _

theorem agree_unary (h : ∀ d, AgreeOperand L d inner inner') :
    AgreeOperand L d (unary config inner) (unary config' inner') := by
  unfold unary
  apply agree_token_bind
  rintro ⟨position, t⟩
  by_cases ht : t = .minus
  · subst ht
    exact agree_bind (agree_advance Token.noConfusion Token.noConfusion rfl) fun _ => agree_negated
  · simp only [if_neg ht]
    exact agree_of_pre (agree_primary h) fun _ _ h => h.1

theorem agree_sum (h : ∀ d, AgreeOperand L d inner inner') : AgreeOperand L d (sum config inner) (sum config' inner') :=
  agree_chain (fun ht => (Operator.additive?_eq_some.mp ht).1)
    (agree_chain (fun ht => (Operator.multiplicative?_eq_some.mp ht).1) (agree_unary h))

theorem agree_expressionWithin {fuel fuel' : List Answer} (hfuel : fuel.length = fuel'.length) (d : Nat) :
    AgreeOperand L d (expressionWithin config fuel) (expressionWithin config' fuel') := by
  induction fuel generalizing fuel' d with
  | nil =>
    obtain rfl := List.length_eq_zero_iff.mp hfuel.symm
    exact agree_sum fun _ => agree_unexpected _
  | cons answer fuel ih =>
    obtain ⟨answer', fuel', rfl⟩ := List.exists_cons_of_length_eq_add_one hfuel.symm
    exact agree_sum (ih (by simpa using hfuel))

theorem agree_expression : AgreeOperand L d (expression config) (expression config') :=
  fun r r' hr hP => agree_expressionWithin (L.length_eq hr) d r r' hr hP

end

/-! ## statements -/

theorem agree_optionName? :
    L.Agree d (L.Here .due) optionName? optionName? (fun name? r r' => L.Here .due r r' ∧
      ∀ name, name? = some name → r'.current.value ≠ .endOfInput ∧ r'.current.value ≠ .openParen) := by
  unfold optionName?
  apply agree_token_bind
  rintro ⟨position, t⟩
  cases t with
  | identifier name =>
    refine agree_bind (agree_peek rfl) fun next => agree_pure fun r r' h => ⟨h.1.1, fun _ _ => ?_⟩
    rw [h.1.2]
    exact ⟨Token.noConfusion, Token.noConfusion⟩
  | symbol name =>
    refine agree_pure fun r r' h => ⟨h.1, fun _ _ => ?_⟩
    rw [h.2]
    exact ⟨Token.noConfusion, Token.noConfusion⟩
  | _ => exact agree_pure fun _ _ h => ⟨h.1, fun _ hname => absurd hname (by simp)⟩

theorem agree_option (read : Arguments) (name : String) :
    L.Agree d (fun r r' => L.Here .due r r' ∧ r'.current.value ≠ .endOfInput ∧ r'.current.value ≠ .openParen)
      (option config read name) (option config' read name) (fun _ => L.Here .idle) := by
  unfold option
  refine agree_current_bind fun t t' ht => ?_
  generalize hp : Place.due.after Located.value t' = p
  have hadvance : L.Agree d
      (fun r r' => (L.Here .due r r' ∧ r'.current.value ≠ .endOfInput ∧ r'.current.value ≠ .openParen) ∧
        r'.current = t') advance advance (fun _ => L.Here p) := by
    rintro r r' hr ⟨⟨hdue, hend, hopen⟩, rfl⟩
    exact agree_advance hend hopen hp r r' hr ⟨hdue, rfl⟩
  have harrow (found : Located Token) (h : found.value = .arrow) : p.after Located.value found = .due := by
    cases p <;> simp [Place.after, Place.behind, Token.asksOperand, h]
  refine agree_bind hadvance fun _ => agree_bind (agree_expect Token.noConfusion Token.noConfusion harrow) fun _ => ?_
  refine agree_bind (agree_skipNewlines (.inr rfl)) fun _ => agree_bind agree_expression fun value => ?_
  cases read.options.contains name with
  | true => exact agree_faultAt ht rfl
  | false => exact agree_pure fun _ _ h => h

theorem agree_coordinate (read : Arguments) :
    AgreeOperand L d (coordinate config read) (coordinate config' read) := by
  unfold coordinate
  refine agree_bind (agree_require rfl) fun _ => ?_
  exact agree_bind agree_expression fun value => agree_pure fun _ _ h => h

theorem agree_arguments : AgreeOperand L d (arguments config) (arguments config') := by
  unfold arguments
  refine agree_list (fun read => agree_bind agree_optionName? fun name? => ?_) _
  cases name? with
  | none => exact agree_of_pre (agree_coordinate read) fun _ _ h => h.1
  | some name => exact agree_of_pre (agree_option read name) fun _ _ h => ⟨h.1, h.2 name rfl⟩

theorem agree_statement {t t' : Located Token} (ht : L.tokens t t') (kind : FeatureKind) :
    AgreeOperand L d (statement config t.position kind) (statement config' t'.position kind) := by
  unfold statement
  have hbare {found : Located Token} :
      L.Agree d (fun r r' => L.Here .due r r' ∧ r'.current = found) (pure {} : Recording ν Arguments) (pure {})
        (fun read r r' => L.Here .idle r r' ∨ read = {}) :=
    agree_pure fun _ _ _ => .inr rfl
  have hread {found : Located Token} :
      L.Agree d (fun r r' => L.Here .due r r' ∧ r'.current = found) (arguments config) (arguments config')
        (fun read r r' => L.Here .idle r r' ∨ read = {}) :=
    agree_of_post (agree_of_pre agree_arguments fun _ _ h => h.1) fun _ _ _ => .inl
  refine agree_token_bind fun found => agree_ite_bind hbare hread fun read => ?_
  dsimp only
  cases h : kind.feature? read.coordinates read.options with
  | none => exact agree_faultAt ht rfl
  | some feature =>
    -- no statement does without coordinates, so an operand that is still due is no matter
    refine agree_pure fun r r' hr => hr.resolve_right ?_
    rintro rfl
    cases kind
    contradiction

/-- A statement makes less of what is left, and so does a block. -/
theorem agree_feature :
    L.Agree d (fun r r' => L.Here .idle r r' ∧ r'.size ≤ n) (feature config) (feature config')
      (fun _ r r' => L.Here .idle r r' ∧ r'.size < n) := by
  unfold feature
  apply agree_current_bind
  rintro ⟨position, t⟩ ⟨position', t'⟩ ht
  obtain rfl : t = t' := L.value_eq ht
  cases t with
  | identifier keyword =>
    cases h : FeatureKind.ofKeyword? keyword with
    | none =>
      simp only [h]
      exact agree_fault rfl
    | some kind =>
      have hafter : Place.idle.after Located.value ⟨position', .identifier keyword⟩ = .due := by
        simp [Place.behind, Token.asksOperand, h]
      simp only [h]
      refine agree_bind (agree_move Token.noConfusion Token.noConfusion hafter) fun _ => ?_
      exact agree_frame (agree_statement ht kind) fun _ _ => Nat.lt_of_le_of_lt
  | _ => exact agree_unexpected _

/-! ## blocks and scores -/

section
variable {defined : Definitions} {o o' : Located Token}

theorem agree_instrumentNumber (numbers : List UInt32) :
    AgreeOperand L d (instrumentNumber defined numbers) (instrumentNumber defined numbers) := by
  unfold instrumentNumber
  apply agree_current_bind
  rintro ⟨position, t⟩ ⟨position', t'⟩ ht
  obtain rfl : t = t' := L.value_eq ht
  cases t with
  | integer digits =>
    refine agree_bind (agree_advance Token.noConfusion Token.noConfusion rfl) fun _ => ?_
    cases Literal.uint32? digits.toList with
    | none => exact agree_faultAt ht rfl
    | some number =>
      cases h : numbers.contains number || defined.declares number with
      | true =>
        simp only [h, if_true]
        exact agree_faultAt ht rfl
      | false =>
        simp only [h]
        exact agree_pure fun _ _ h => h
  | _ => exact agree_unexpected _

theorem agree_opener : L.Agree d (L.Here .idle) opener opener (fun _ => L.Here .idle) := by
  unfold opener
  apply agree_token_bind
  rintro ⟨position, t⟩
  have hadvance (closer : Closer) (hend : t ≠ .endOfInput) (hopen : t ≠ .openParen)
      (ht : (Place.behind t : Place (Located Token)) = .idle) :
      L.Agree d (L.On .idle ⟨position, t⟩) (do advance; return closer) (do advance; return closer)
        (fun _ => L.Here .idle) :=
    agree_bind (agree_advance hend hopen ht) fun _ => agree_pure fun _ _ h => h
  split
  case h_1 h =>
    obtain rfl : t = _ := h
    exact hadvance .keyword Token.noConfusion Token.noConfusion rfl
  case h_2 h =>
    obtain rfl : t = _ := h
    exact hadvance .brace Token.noConfusion Token.noConfusion rfl
  case h_3 => exact agree_unexpected _

theorem agree_bodyItem (ho : L.tokens o o') (hinstr : o.value = .identifier "instr") (features : List Feature) :
    L.Agree d (fun r r' => L.Here .idle r r' ∧ r'.size ≤ n) (bodyItem config o.position.line features)
      (bodyItem config' o'.position.line features) (fun _ r r' => L.Here .idle r r' ∧ r'.size < n) := by
  unfold bodyItem
  refine agree_token_bind fun t => agree_bind (agree_require_terminated ho hinstr) fun _ => ?_
  exact agree_bind (agree_of_pre agree_feature fun _ _ h => h.1) fun feature => agree_pure fun _ _ h => h

theorem agree_body (ho : L.tokens o o') (hinstr : o.value = .identifier "instr") (closer : Closer) :
    L.Agree d (L.Here .idle) (body config closer o.position.line) (body config' closer o'.position.line)
      (fun _ => L.Here .idle) := by
  unfold body
  refine agree_bind (agree_sequence (fun features n => agree_bodyItem ho hinstr features) []) fun features => ?_
  refine agree_bind (Q := fun _ => L.Here .idle) ?_ fun _ => agree_pure fun _ _ h => h
  rintro r r' hr ⟨hidle, hcloser⟩
  have hvalue := beq_iff_eq.mp hcloser
  have hmoved : r'.current.value ≠ .endOfInput ∧ r'.current.value ≠ .openParen ∧
      Place.idle.after Located.value r'.current = .idle := by
    rw [Place.after_idle, hvalue]
    cases closer <;> exact ⟨Token.noConfusion, Token.noConfusion, rfl⟩
  exact agree_advance hmoved.1 hmoved.2.1 hmoved.2.2 r r' hr ⟨hidle, rfl⟩

theorem agree_block :
    L.Agree d (fun r r' => L.Here .idle r r' ∧ r'.size ≤ n) (block config defined) (block config' defined)
      (fun _ r r' => L.Here .idle r r' ∧ r'.size < n) := by
  unfold block
  refine agree_current_bind fun o o' ho => ?_
  have hexpect :
      L.Agree d (fun r r' => (L.Here .idle r r' ∧ r'.size ≤ n) ∧ r'.current = o') (expect .block (.identifier "instr"))
        (expect .block (.identifier "instr"))
        (fun _ r r' => (L.Here .due r r' ∧ r'.size < n) ∧ o.value = .identifier "instr") := by
    refine agree_bind agree_demand fun _ r r' hr ⟨⟨hidle, hcurrent⟩, haccepts⟩ => ?_
    have hinstr : o'.value = .identifier "instr" := hcurrent ▸ beq_iff_eq.mp haccepts
    have hafter : Place.idle.after Located.value o' = .due := by
      rw [Place.after_idle, hinstr]
      rfl
    refine (agree_move (by simp [hinstr]) (by simp [hinstr]) hafter r r' hr ⟨hidle, hcurrent⟩).imp ?_
    exact fun _ _ _ _ ⟨hs, hsize, hdue⟩ => ⟨hs, hsize, hdue, (L.value_eq ho).trans hinstr⟩
  refine agree_bind hexpect fun _ => agree_of_and fun hinstr => ?_
  have hnumbers : AgreeOperand L d (instrumentNumbers defined) (instrumentNumbers defined) :=
    agree_list agree_instrumentNumber []
  refine agree_bind (agree_frame hnumbers fun _ _ => Nat.lt_of_le_of_lt) fun numbers => ?_
  refine agree_bind (agree_frame agree_opener fun _ _ => Nat.lt_of_le_of_lt) fun closer => ?_
  refine agree_bind (agree_frame (agree_body ho hinstr closer) fun _ _ => Nat.lt_of_le_of_lt) fun features => ?_
  cases features.isEmpty with
  | true => exact agree_faultAt ho rfl
  | false => exact agree_pure fun _ _ h => h

theorem agree_scoreItem (defined : Definitions) :
    L.Agree d (fun r r' => L.Here .idle r r' ∧ r'.size ≤ n) (scoreItem config defined) (scoreItem config' defined)
      (fun _ r r' => L.Here .idle r r' ∧ r'.size < n) :=
  agree_bind agree_block fun _ => agree_pure fun _ _ h => h

/-- A score is read up to the end of input. -/
theorem agree_score :
    L.Agree d (L.Here .idle) (score config) (score config')
      (fun _ r r' => L.Here .idle r r' ∧ (r'.current.value == .endOfInput) = true) :=
  agree_sequence (fun defined _ => agree_scoreItem defined) .empty

end

end

end Reading

end GraphicScore
