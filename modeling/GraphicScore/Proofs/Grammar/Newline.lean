import GraphicScore.Proofs.Grammar.Parentheses
import Mathlib.Data.List.Induction

/-!
# Newlines in parentheses

An expression is scanned from the left for what may come next: an operand, an operator, or one particular
token. With a parenthesis open a newline may come wherever an operand or an operator may, and nowhere else.
-/

namespace GraphicScore

inductive Awaited where
  | operand | number | opening | operator
deriving DecidableEq

namespace Awaited

def after? : Awaited → Token → Option Awaited
  | .operand, .newline => some .operand
  | .operand, .openParen => some .operand
  | .operand, .minus => some .number
  | .operand, .integer _ => some .operator
  | .operand, .float _ => some .operator
  | .operand, .identifier name => some (if pFieldDigits? name = none then .opening else .operator)
  | .number, .integer _ => some .operator
  | .number, .float _ => some .operator
  | .opening, .openParen => some .operand
  | .operator, .newline => some .operator
  | .operator, .closeParen => some .operator
  | .operator, .plus => some .operand
  | .operator, .minus => some .operand
  | .operator, .star => some .operand
  | .operator, .slash => some .operand
  | _, _ => none

/-- What is awaited behind a word, unless the word goes wrong. -/
def along? (s : Awaited) (w : List Token) : Option Awaited := w.foldlM after? s

section
variable {s s' : Awaited} {t : Token} {u v w : List Token}

@[simp] theorem along?_nil : s.along? [] = some s := rfl

@[simp] theorem along?_cons : s.along? (t :: w) = (s.after? t).bind (along? · w) := by
  simp only [along?, List.foldlM_cons, Option.bind_eq_bind]

@[simp] theorem along?_append : s.along? (u ++ v) = (s.along? u).bind (along? · v) := by
  simp only [along?, List.foldlM_append, Option.bind_eq_bind]

theorem after?_newline : s.after? .newline = some s' ↔ (s = .operand ∨ s = .operator) ∧ s' = s := by
  cases s <;> simp [after?, eq_comm]

theorem along?_newlines (hs : s = .operand ∨ s = .operator) (hw : Newlines w) : s.along? w = some s := by
  induction w with
  | nil => rfl
  | cons t w ih =>
    obtain ⟨rfl, hw'⟩ := List.forall_mem_cons.mp hw
    rw [along?_cons, after?_newline.mpr ⟨hs, rfl⟩, Option.bind_some, ih hw']

theorem after?_operator (op : Operator) : after? .operator op.token = some .operand := by
  cases op <;> rfl

end

end Awaited

/-! ## scanning expressions -/

section
variable {config : Config} {level : Level} {inside : Bool} {w x y : List Token} {e : Expr}

open Awaited

theorem along?_parenthesized {n n' : List Token} (hn : Newlines n) (hn' : Newlines n')
    (h : along? .operand w = some .operator) :
    along? .operand (n ++ w ++ n' ++ [.closeParen]) = some .operator := by
  simp [along?_newlines (.inl rfl) hn, h, along?_newlines (.inr rfl) hn', after?]

theorem Derives.along? (h : Derives config level inside w e) : Awaited.along? .operand w = some .operator := by
  induction h with
  | integer _ => rfl
  | float _ _ => rfl
  | negInteger _ => rfl
  | negFloat _ _ => rfl
  | pField hname _ _ => simp [after?, hname]
  | group hn _ hn' ih =>
    rw [along?_cons]
    exact along?_parenthesized hn hn' ih
  | call hname _ _ hn _ hn' ih =>
    simp only [along?_cons, after?, hname, if_true, Option.bind_some]
    exact along?_parenthesized hn hn' ih
  | tighter _ ih => exact ih
  | chain op _ gap hn _ ih ih' =>
    rw [along?_append, along?_append, ih, Option.bind_some, along?_newlines (.inr rfl) gap.1, Option.bind_some,
      along?_cons, after?_operator, Option.bind_some, along?_append, along?_newlines (.inl rfl) hn,
      Option.bind_some, ih']

end

/-! ## one more newline -/

theorem Newlines.insert {x y : List Token} (h : Newlines (x ++ y)) : Newlines (x ++ .newline :: y) := by
  obtain ⟨hx, hy⟩ := List.forall_mem_append.mp h
  exact List.forall_mem_append.mpr ⟨hx, List.forall_mem_cons.mpr ⟨rfl, hy⟩⟩

/--
A newline can be put in wherever one may come: between two tokens if the word is in parentheses already,
and otherwise with a parenthesis of its own open.
-/
def TakesNewlines (Word : List Token → Prop) (inside : Bool) (w : List Token) : Prop :=
  ∀ x y s, w = x ++ y → x ≠ [] → y ≠ [] → (inside = false → 0 < nesting x) →
    Awaited.along? .operand x = some s → s = .operand ∨ s = .operator → Word (x ++ .newline :: y)

section
variable {config : Config} {level : Level} {inside : Bool} {w g n n' v x y : List Token} {e left right : Expr}

open Awaited

/-- With the parenthesis around it, the places at the ends of the word are others' as well. -/
theorem insert_parenthesized {s : Awaited} (hn : Newlines n) (hw : Derives config .sum true w e) (hn' : Newlines n')
    (ih : TakesNewlines (Derives config .sum true · e) true w) (h : n ++ w ++ n' ++ [.closeParen] = x ++ y)
    (hy : y ≠ []) (hx : Awaited.along? .operand x = some s) (hs : s = .operand ∨ s = .operator) :
    ∃ m v m', Newlines m ∧ Derives config .sum true v e ∧ Newlines m' ∧
      x ++ .newline :: y = m ++ v ++ m' ++ [.closeParen] := by
  simp only [List.append_assoc] at h
  rcases split_append h.symm with ⟨z, hz, rfl, h₁⟩ | ⟨z, rfl, rfl⟩
  · rcases split_append h₁ with ⟨z', hz', rfl, rfl⟩ | ⟨z', rfl, h₂⟩
    · rw [along?_append, along?_newlines (.inl rfl) hn, Option.bind_some] at hx
      exact ⟨n, z ++ .newline :: z', n', hn, ih z z' s rfl hz hz' (by simp) hx hs, hn', by simp⟩
    · rcases split_append h₂.symm with ⟨z, hz, rfl, h₃⟩ | ⟨z, rfl, rfl⟩
      · -- behind the closing parenthesis there is no place
        cases z with
        | nil => contradiction
        | cons t z =>
          rw [List.cons_append, List.cons.injEq, List.nil_eq, List.append_eq_nil_iff] at h₃
          exact absurd h₃.2.2 hy
      · exact ⟨n, w, z' ++ .newline :: z, hn, hw, hn'.insert, by simp⟩
  · exact ⟨x ++ .newline :: z, w, n', hn.insert, hw, hn', by simp⟩

theorem takesNewlines_chain (op : Operator) (hleft : Derives config op.level inside w left) (gap : Gap inside g)
    (hn : Newlines n) (hright : Derives config op.level.tighter inside v right)
    (ih : TakesNewlines (Derives config op.level inside · left) inside w)
    (ih' : TakesNewlines (Derives config op.level.tighter inside · right) inside v) :
    TakesNewlines (Derives config op.level inside · (.binary op left right [])) inside
      (w ++ g ++ op.token :: (n ++ v)) := by
  intro x y s h hne hy hin hx hs
  rw [List.append_assoc] at h
  rcases split_append h with ⟨z, hz, rfl, rfl⟩ | ⟨z, rfl, h₁⟩
  · have := Derives.chain op (ih x z s rfl hne hz hin hx hs) gap hn hright
    simpa using this
  · rcases split_append h₁.symm with ⟨z', hz', rfl, h₂⟩ | ⟨z', rfl, rfl⟩
    · obtain ⟨t, z, rfl⟩ := List.exists_cons_of_ne_nil hz'
      rw [List.cons_append, List.cons.injEq] at h₂
      obtain ⟨rfl, h₃⟩ := h₂
      rcases split_append h₃.symm with ⟨z', hne', rfl, rfl⟩ | ⟨z', rfl, rfl⟩
      · -- the scan and the nesting start anew with the operand
        have hx' : Awaited.along? .operand z' = some s := by
          simpa [hleft.along?, along?_newlines (.inr rfl) gap.1, along?_newlines (.inl rfl) hn,
            after?_operator] using hx
        have hin' : inside = false → 0 < nesting z' := by
          simpa [hleft.balanced.nesting_eq, gap.1.flat.nesting_eq, hn.flat.nesting_eq, op.nesting_token] using hin
        have := Derives.chain op hleft gap hn (ih' z' y s rfl hne' hy hin' hx' hs)
        simpa using this
      · have := Derives.chain op hleft gap hn.insert hright
        simpa using this
    · have hinside : inside = true := by
        refine Bool.of_not_eq_false fun hi => ?_
        have := hin hi
        rw [nesting_append, hleft.balanced.nesting_eq, (flat_append.mp gap.1.flat).1.nesting_eq] at this
        exact absurd this (by decide)
      have gap' : Gap inside (z ++ .newline :: z') := ⟨gap.1.insert, by simp [hinside]⟩
      have := Derives.chain op hleft gap' hn hright
      simpa using this

theorem takesNewlines_singleton {Word : List Token → Prop} {t : Token} : TakesNewlines Word inside [t] := by
  intro x y s h hne hy
  rcases List.append_eq_singleton_iff.mp h.symm with ⟨rfl, -⟩ | ⟨-, rfl⟩ <;> contradiction

theorem takesNewlines_negated {Word : List Token → Prop} {t : Token} :
    TakesNewlines Word inside [.minus, t] := by
  intro x y s h hne hy _ hx hs
  obtain ⟨t', z, rfl⟩ := List.exists_cons_of_ne_nil hne
  rw [List.cons_append, List.cons.injEq] at h
  obtain ⟨rfl, h⟩ := h
  rcases List.append_eq_singleton_iff.mp h.symm with ⟨rfl, -⟩ | ⟨-, rfl⟩
  · cases hx
    rcases hs with hs | hs <;> cases hs
  · contradiction

theorem Derives.takesNewlines (h : Derives config level inside w e) :
    TakesNewlines (Derives config level inside · e) inside w := by
  induction h with
  | integer _ => exact takesNewlines_singleton
  | float _ _ => exact takesNewlines_singleton
  | pField _ _ _ => exact takesNewlines_singleton
  | negInteger _ => exact takesNewlines_negated
  | negFloat _ _ => exact takesNewlines_negated
  | tighter _ ih =>
    intro x y s h hne hy hin hx hs
    exact .tighter (ih x y s h hne hy hin hx hs)
  | chain op hleft gap hn hright ih ih' => exact takesNewlines_chain op hleft gap hn hright ih ih'
  | group hn hw hn' ih =>
    intro x y s h hne hy _ hx hs
    obtain ⟨t, x, rfl⟩ := List.exists_cons_of_ne_nil hne
    rw [List.cons_append, List.cons.injEq] at h
    obtain ⟨rfl, h⟩ := h
    obtain ⟨m, v, m', hm, hv, hm', heq⟩ := insert_parenthesized hn hw hn' ih h hy hx hs
    rw [List.cons_append, heq]
    exact .group hm hv hm'
  | call hname hadmits hconvert hn hw hn' ih =>
    intro x y s h hne hy _ hx hs
    obtain ⟨t, x, rfl⟩ := List.exists_cons_of_ne_nil hne
    rw [List.cons_append, List.cons.injEq] at h
    obtain ⟨rfl, h⟩ := h
    rw [along?_cons, after?, if_pos hname, Option.bind_some] at hx
    cases x with
    | nil =>
      -- only the parenthesis may come behind the name
      cases hx
      rcases hs with hs | hs <;> cases hs
    | cons t x =>
      rw [List.cons_append, List.cons.injEq] at h
      obtain ⟨rfl, h⟩ := h
      obtain ⟨m, v, m', hm, hv, hm', heq⟩ := insert_parenthesized hn hw hn' ih h hy hx hs
      rw [List.cons_append, List.cons_append, heq]
      exact .call hname hadmits hconvert hm hv hm'

end

/-! ## tied tokens -/

def Token.endsOperand : Token → Bool
  | .identifier _ => true
  | .integer _ => true
  | .float _ => true
  | .closeParen => true
  | _ => false

/-- Whether an operand stands at the end of a word, but for newlines. -/
def endsWithOperand (w : List Token) : Bool := (w.reverse.find? (· != .newline)).any Token.endsOperand

/--
Tokens that have to follow each other directly: the name of a converter and its parenthesis, a minus that is
no operator and its number.
-/
inductive Tied : List Token → List Token → Prop
  | call {x y : List Token} {name : String} :
    pFieldDigits? name = none → Tied (x ++ [.identifier name]) (.openParen :: y)
  | minus {x y : List Token} : endsWithOperand x = false → Tied (x ++ [.minus]) y

section
variable {config : Config} {level : Level} {inside : Bool} {s s' : Awaited} {t : Token} {u w x y : List Token}
  {d : Definitions}

@[simp] theorem endsWithOperand_concat_newline : endsWithOperand (w ++ [.newline]) = endsWithOperand w := by
  simp [endsWithOperand]

theorem endsWithOperand_concat (h : t ≠ .newline) : endsWithOperand (w ++ [t]) = t.endsOperand := by
  simp [endsWithOperand, h]

open Awaited

theorem along?_concat : s.along? (w ++ [t]) = some s' ↔ ∃ s'', s.along? w = some s'' ∧ s''.after? t = some s' := by
  simp [Option.bind_eq_some_iff]

theorem endsWithOperand_of_operator (h : along? .operand w = some .operator) : endsWithOperand (u ++ w) = true := by
  induction w using List.reverseRecOn with
  | nil => cases h
  | append_singleton w t ih =>
    obtain ⟨s, hw, ht⟩ := along?_concat.mp h
    rw [← List.append_assoc]
    by_cases hnewline : t = .newline
    · obtain ⟨-, rfl⟩ := after?_newline.mp (hnewline ▸ ht)
      rw [hnewline, endsWithOperand_concat_newline, ih hw]
    · rw [endsWithOperand_concat hnewline]
      revert ht
      fun_cases after? s t <;> simp_all [Token.endsOperand]

theorem endsWithOperand_of_operand (h : along? .operand w = some .operand) (hw : 0 < nesting w) :
    endsWithOperand (u ++ w) = false := by
  induction w using List.reverseRecOn with
  | nil => exact absurd hw (by decide)
  | append_singleton w t ih =>
    obtain ⟨s, hw', ht⟩ := along?_concat.mp h
    rw [← List.append_assoc]
    by_cases hnewline : t = .newline
    · subst hnewline
      obtain ⟨-, rfl⟩ := after?_newline.mp ht
      rw [endsWithOperand_concat_newline, ih hw' (by simpa [Token.nesting] using hw)]
    · rw [endsWithOperand_concat hnewline]
      revert ht
      fun_cases after? s t <;> simp [Token.endsOperand]
      split <;> simp

theorem Tied.awaited (h : Tied (u ++ w) y) (hw : along? .operand w = some s) (hne : w ≠ []) :
    s = .number ∨ s = .opening := by
  cases w using List.reverseRecOn with
  | nil => contradiction
  | append_singleton w t =>
    obtain ⟨s', hw', ht⟩ := along?_concat.mp hw
    generalize hu : u ++ (w ++ [t]) = v at h
    rw [← List.append_assoc] at hu
    cases h with
    | call hname =>
      obtain ⟨rfl, rfl⟩ := List.append_singleton_inj.mp hu
      cases s' <;> simp_all [after?]
    | minus hend =>
      obtain ⟨rfl, rfl⟩ := List.append_singleton_inj.mp hu
      cases s' with
      | operator =>
        rw [endsWithOperand_of_operator hw'] at hend
        contradiction
      | _ => simp_all [after?]

theorem tied_of_awaited {v : List Token} (hw : along? .operand w = some s) (hs : s = .number ∨ s = .opening)
    (hy : s.along? y = some .operator) (hx : 0 < nesting w) : Tied (u ++ w) (y ++ v) := by
  cases w using List.reverseRecOn with
  | nil => exact absurd hx (by decide)
  | append_singleton w t =>
    obtain ⟨s', hw', ht⟩ := along?_concat.mp hw
    rw [← List.append_assoc]
    rcases hs with rfl | rfl
    · obtain ⟨rfl, rfl⟩ : s' = .operand ∧ t = .minus := by
        revert ht
        fun_cases after? s' t <;> simp
        split <;> simp
      exact .minus (endsWithOperand_of_operand hw' (by simpa [Token.nesting] using hx))
    · obtain ⟨name, hname, rfl⟩ : ∃ name, pFieldDigits? name = none ∧ t = .identifier name := by
        revert ht
        fun_cases after? s' t <;> simp
      cases y with
      | nil => cases hy
      | cons t y =>
        obtain rfl : t = .openParen := by
          revert hy
          cases t <;> simp [after?]
        exact .call hname

theorem Derives.exists_awaited {e : Expr} (h : Derives config level inside (x ++ y) e) (hx : 0 < nesting x) :
    ∃ s, Awaited.along? .operand x = some s ∧ s.along? y = some .operator ∧ x ≠ [] ∧ y ≠ [] := by
  have hscan := h.along?
  rw [along?_append, Option.bind_eq_some_iff] at hscan
  obtain ⟨s, hs, hy⟩ := hscan
  refine ⟨s, hs, hy, ?_, ?_⟩
  · rintro rfl
    exact absurd hx (by decide)
  · rintro rfl
    rw [List.append_nil] at h
    exact absurd h.balanced.nesting_eq (Int.ne_of_gt hx)

/-- A newline between two tokens in parentheses that are not tied is read over. -/
theorem ScoreWord.insert_newline (h : ScoreWord config (x ++ y) d) (hx : 0 < nesting x) (ht : ¬ Tied x y) :
    ScoreWord config (x ++ .newline :: y) d := by
  obtain ⟨u, x', y', v, e, rfl, rfl, hx', he, hput⟩ := h.within hx
  rw [← hx'] at hx
  obtain ⟨s, hs, hy, hne, hne'⟩ := he.exists_awaited hx
  have hopen : s = .operand ∨ s = .operator := by
    cases s with
    | operand => exact .inl rfl
    | operator => exact .inr rfl
    | number => exact absurd (tied_of_awaited hs (.inl rfl) hy hx) ht
    | opening => exact absurd (tied_of_awaited hs (.inr rfl) hy hx) ht
  have := he.takesNewlines x' y' s rfl hne hne' (fun _ => hx) hs hopen
  simpa using hput [.newline] (by simpa using this)

theorem not_scoreWord_of_tied {z : List Token} (ht : Tied x y) (hx : 0 < nesting x) :
    ¬ ScoreWord config (x ++ .newline :: z) d := by
  intro h
  obtain ⟨u, x', z', v, e, rfl, hz, hx', he, -⟩ := h.within hx
  obtain ⟨s, hs, hy, hne, hne'⟩ := he.exists_awaited (hx' ▸ hx)
  obtain ⟨t, z', rfl⟩ := List.exists_cons_of_ne_nil hne'
  rw [List.cons_append, List.cons.injEq] at hz
  obtain ⟨rfl, -⟩ := hz
  rw [along?_cons, Option.bind_eq_some_iff] at hy
  obtain ⟨s', hs', -⟩ := hy
  rcases ht.awaited hs hne with rfl | rfl <;> cases hs'

end

end GraphicScore
