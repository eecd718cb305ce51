import GraphicScore.Proofs.Grammar.Score
import GraphicScore.Proofs.Source.Parts

/-!
# Calls of converters

A converter is called by a name that stands where an operand is due, with an opening parenthesis behind it.
The calls of a score are found by going over its tokens once. They are the converters of what the score
declares: those of an expression from the outside to the inside, and those of operands from left to right.
-/

namespace GraphicScore

/-! ## calls among tokens -/

/-- What tokens lead up to: no operand, an operand, or the parenthesis behind a name in its place. -/
inductive Place (α : Type) where
  | idle
  | due
  | named (t : α)

/-- Whether an operand or an instrument number comes next. -/
def Token.asksOperand : Token → Bool
  | .identifier name => name == "instr" || (FeatureKind.ofKeyword? name).isSome
  | .comma => true
  | .plus => true
  | .minus => true
  | .star => true
  | .slash => true
  | .openParen => true
  | .arrow => true
  | _ => false

namespace Place

variable {α β : Type}

def behind (t : Token) : Place α := if t.asksOperand then .due else .idle

section
variable (value : α → Token)

def after : Place α → α → Place α
  | .due, t =>
    match value t with
    | .newline => .due
    | .identifier name => if (pFieldDigits? name).isSome then .idle else .named t
    | found => .behind found
  | _, t => .behind (value t)

def along (p : Place α) (w : List α) : Place α := w.foldl (after value) p

/-- The name that a token calls. -/
def called : Place α → α → List α
  | .named name, t => if value t = .openParen then [name] else []
  | _, _ => []

def callsFrom : Place α → List α → List α
  | _, [] => []
  | p, t :: w => p.called value t ++ callsFrom (p.after value t) w

end

section
variable {value : α → Token} {p : Place α} {t : α} {u v w : List α}

@[simp] theorem after_idle : idle.after value t = .behind (value t) := rfl

@[simp] theorem after_named {name : α} : (named name).after value t = .behind (value t) := rfl

@[simp] theorem along_nil : p.along value [] = p := rfl

@[simp] theorem along_cons : p.along value (t :: w) = (p.after value t).along value w := rfl

@[simp] theorem along_append : p.along value (u ++ v) = (p.along value u).along value v := List.foldl_append

@[simp] theorem callsFrom_nil : callsFrom value p [] = [] := rfl

@[simp] theorem callsFrom_cons :
    callsFrom value p (t :: w) = p.called value t ++ callsFrom value (p.after value t) w := rfl

@[simp] theorem callsFrom_append :
    callsFrom value p (u ++ v) = callsFrom value p u ++ callsFrom value (p.along value u) v := by
  induction u generalizing p with
  | nil => rfl
  | cons t u ih => simp [ih]

end

/-! ## what the tokens carry -/

def map (f : α → β) : Place α → Place β
  | .idle => .idle
  | .due => .due
  | .named t => .named (f t)

section
variable {value : α → Token} {p : Place α} {t : α} {w : List α}

theorem after_map : (p.map value).after id (value t) = (p.after value t).map value := by
  have hbehind (found : Token) : (behind found : Place α).map value = behind found := by
    unfold behind
    cases found.asksOperand <;> rfl
  cases p with
  | due =>
    simp only [map, after, id_eq]
    split
    · rfl
    · split <;> rfl
    · exact (hbehind _).symm
  | idle => exact (hbehind _).symm
  | named name => exact (hbehind _).symm

theorem called_map : (p.map value).called id (value t) = (p.called value t).map value := by
  cases p with
  | named name => by_cases ht : value t = .openParen <;> simp [map, called, ht]
  | _ => rfl

theorem callsFrom_map : callsFrom id (p.map value) (w.map value) = (callsFrom value p w).map value := by
  induction w generalizing p with
  | nil => rfl
  | cons t w ih => simp [after_map, called_map, ih]

end

end Place

/-- The names of the converters that are called, in their order in the source. -/
def calls (ts : List (Located Token)) : List (Located Token) := Place.callsFrom Located.value .idle ts

/-! ## converters of what is declared -/

def Expr.converterNames : Expr → List String
  | .constant _ => []
  | .pField _ converters => converters.map Converter.name
  | .binary _ left right converters =>
    converters.map Converter.name ++ (left.converterNames ++ right.converterNames)

def Feature.converterNames (f : Feature) : List String := f.expressions.flatMap Expr.converterNames

def Block.converterNames (b : Block) : List String := b.instrument.features.flatMap Feature.converterNames

def Definitions.converterNames (d : Definitions) : List String := d.blocks.flatMap Block.converterNames

theorem Expr.converterNames_of_convert? {e e' : Expr} {name : String} (h : e.convert? ⟨name⟩ = some e') :
    e'.converterNames = name :: e.converterNames := by
  obtain ⟨_, _, rfl, rfl⟩ | ⟨_, _, _, _, rfl, rfl⟩ := Expr.convert?_eq_some.mp h <;> rfl

/-! ## calls among words of the grammar -/

/-- The word leads from one place to another and calls converters of these names, which are admitted. -/
structure Calls (config : Config) (p q : Place Token) (w : List Token) (names : List String) : Prop where
  along : p.along id w = q
  calls : p.callsFrom id w = names.map .identifier
  admitted : ∀ name ∈ names, config.admits name = true

section
variable {config : Config} {p q s : Place Token} {t : Token} {u v w n n' : List Token} {names others : List String}

theorem Calls.append (hu : Calls config p q u names) (hv : Calls config q s v others) :
    Calls config p s (u ++ v) (names ++ others) where
  along := by rw [Place.along_append, hu.along, hv.along]
  calls := by rw [Place.callsFrom_append, hu.calls, hu.along, hv.calls, List.map_append]
  admitted := List.forall_mem_append.mpr ⟨hu.admitted, hv.admitted⟩

/-- A token that calls nothing. -/
theorem Calls.one (h : p.called id t = []) (hq : p.after id t = q) : Calls config p q [t] [] :=
  ⟨hq, by simp [h], List.forall_mem_nil _⟩

theorem Calls.cons (h : p.called id t = []) (hq : p.after id t = q) (hw : Calls config q s w names) :
    Calls config p s (t :: w) names :=
  (Calls.one h hq).append hw

theorem Newlines.calls (h : Newlines w) (hp : p.after id .newline = p) : Calls config p p w [] := by
  induction w with
  | nil => exact ⟨rfl, rfl, List.forall_mem_nil _⟩
  | cons t w ih =>
    obtain ⟨rfl, hw⟩ := List.forall_mem_cons.mp h
    have hcalled : p.called id .newline = [] := by cases p <;> rfl
    exact .cons hcalled hp (ih hw)

theorem calls_parenthesized (hn : Newlines n) (hw : Calls config .due .idle w names) (hn' : Newlines n') :
    Calls config .due .idle (n ++ w ++ n' ++ [.closeParen]) names := by
  have h := (((hn.calls rfl).append hw).append (hn'.calls rfl)).append (Calls.one (t := .closeParen) rfl rfl)
  rwa [List.nil_append, List.append_nil, List.append_nil] at h

theorem after_name {name : String} (h : pFieldDigits? name = none) :
    Place.due.after id (.identifier name) = .named (.identifier name) := by
  simp [Place.after, h]

theorem Derives.calls {level : Level} {inside : Bool} {e : Expr} (h : Derives config level inside w e) :
    Calls config .due .idle w e.converterNames := by
  induction h with
  | integer _ => exact .one rfl rfl
  | float _ _ => exact .one rfl rfl
  | negInteger _ => exact .cons rfl rfl (.one rfl rfl)
  | negFloat _ _ => exact .cons rfl rfl (.one rfl rfl)
  | pField hname _ _ => exact .one rfl (by simp [Place.after, hname])
  | group hn _ hn' ih => exact .cons rfl rfl (calls_parenthesized hn ih hn')
  | @call _ name _ _ _ _ _ hname hadmits hconvert hn _ hn' ih =>
    have hcall : Calls config .due .due [.identifier name, .openParen] [name] := by
      refine ⟨?_, ?_, List.forall_mem_singleton.mpr hadmits⟩
      · rw [Place.along_cons, after_name hname]
        rfl
      · rw [Place.callsFrom_cons, after_name hname]
        rfl
    rw [Expr.converterNames_of_convert? hconvert]
    exact hcall.append (calls_parenthesized hn ih hn')
  | tighter _ ih => exact ih
  | chain op _ gap hn _ ih ih' =>
    have hop : Place.idle.after id op.token = .due := by cases op <;> rfl
    have hright := (hn.calls rfl).append ih'
    have h := (ih.append (gap.1.calls rfl)).append (hright.cons rfl hop)
    rwa [List.append_nil] at h

/-! ## statements and scores -/

theorem ArgumentWord.calls {arg : Expr ⊕ String × Expr} (h : ArgumentWord config w arg) :
    Calls config .due .idle w (argumentExpr arg).converterNames := by
  cases h with
  | coordinate he => exact he.calls
  | @option t n w name e ht hn he =>
    have harrow (p : Place Token) : p.after id .arrow = .due := by cases p <;> rfl
    have hcalled (p : Place Token) : p.called id .arrow = [] := by cases p <;> rfl
    exact .cons rfl rfl (.cons (hcalled _) (harrow _) ((hn.calls rfl).append he.calls))

section
variable {α : Type} {between : List Token → Prop} {Item : List Token → α → Prop} {as : List α}
  {namesOf : α → List String}

theorem SepBy.calls (h : SepBy between Item w as) (item : ∀ w a, Item w a → Calls config p .idle w (namesOf a))
    (separator : ∀ w, between w → Calls config .idle p w []) : Calls config p .idle w (as.flatMap namesOf) :=
  h.found .append item separator

theorem Comma.calls (h : Comma w) : Calls config .idle .due w [] := by
  obtain ⟨n, hn, rfl⟩ := h
  exact .cons rfl rfl (hn.calls rfl)

theorem Separators.calls (h : Separators w) : Calls config .idle .idle w [] := by
  induction w with
  | nil => exact ⟨rfl, rfl, List.forall_mem_nil _⟩
  | cons t w ih =>
    obtain ⟨ht, hw⟩ := List.forall_mem_cons.mp h
    have hafter : Place.idle.after id t = .idle := by cases t <;> first | rfl | contradiction
    exact .cons rfl hafter (ih hw)

theorem Spaced.calls (h : Spaced Item w as) (item : ∀ w a, Item w a → Calls config .idle .idle w (namesOf a)) :
    Calls config .idle .idle w (as.flatMap namesOf) :=
  h.found .append item fun _ => Separators.calls

end

theorem FeatureWord.calls {f : Feature} (h : FeatureWord config w f) :
    Calls config .idle .idle w f.converterNames := by
  obtain @⟨w, l, hargs, -⟩ := h
  have h : Calls config .due .idle w (l.arguments.flatMap fun arg => (argumentExpr arg).converterNames) :=
    hargs.calls (fun _ _ ha => ha.calls) fun _ hs => hs.calls
  rw [← List.flatMap_map, ← Line.expressions_eq] at h
  exact .cons rfl rfl h

theorem NumberWord.calls {number : UInt32} (h : NumberWord w number) : Calls config .due .idle w [] := by
  cases h
  exact .one rfl rfl

theorem BlockWord.calls {b : Block} (h : BlockWord config w b) : Calls config .idle .idle w b.converterNames := by
  obtain @⟨w, v, numbers, features, closer, hnumbers, hfeatures, -⟩ := h
  have hopening : Place.idle.after id closer.opening = .idle := by cases closer <;> rfl
  have hclosing : Place.idle.after id closer.token = .idle := by cases closer <;> rfl
  have hnumbers : Calls config .due .idle w [] := by
    have h : Calls config .due .idle w (numbers.flatMap fun _ => []) :=
      hnumbers.calls (fun _ _ hn => hn.calls) fun _ hs => hs.calls
    rwa [List.flatMap_eq_nil_iff.mpr fun _ _ => rfl] at h
  have hbody := (hfeatures.calls fun _ _ hf => hf.calls).append (Calls.one rfl hclosing)
  rw [List.append_nil] at hbody
  exact .cons rfl rfl (hnumbers.append (hbody.cons rfl hopening))

theorem ScoreWord.calls {d : Definitions} (h : ScoreWord config w d) :
    Calls config .idle .idle w d.converterNames := by
  obtain ⟨hblocks, -⟩ := h
  have h := (hblocks.calls fun _ _ hb => hb.calls).append (Calls.one (t := .endOfInput) rfl rfl)
  rwa [List.append_nil] at h

end

end GraphicScore
