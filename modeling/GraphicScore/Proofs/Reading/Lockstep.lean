import GraphicScore.Converter
import GraphicScore.Proofs.Grammar.Calls
import GraphicScore.Proofs.Reading.Repetition
import GraphicScore.Reading.Expression

/-!
# Two runs in lockstep

A reading is run twice, and what the runs have in common stays so as long as both go on. What that is, and what
becomes of it when a run fails, is the lockstep's to say; it has one clause for each thing that a reader can do.
The readings are gone through once for all locksteps. The first run may be watched, the second one is not.
-/

namespace GraphicScore

/-- Whether the cause says what is no token, which readings hand on from the feed and never find themselves. -/
def Cause.isLexical : Cause → Bool
  | .loneEquals => true
  | .namelessSymbol => true
  | .unexpectedCharacter _ => true
  | _ => false

/-- Whether a reading finds the cause by tokens alone, without regard to places and converters. -/
def Cause.isPlain : Cause → Bool
  | .unterminatedBlock _ => false
  | .unknownConverter _ => false
  | cause => !cause.isLexical

theorem Cause.isLexical_of_isPlain {cause : Cause} (h : cause.isPlain = true) : cause.isLexical = false := by
  cases cause <;> first | rfl | contradiction

section
variable {ν α β σ : Type}

/-- What two runs come to: the same with readers that are related, or faults. -/
inductive Outcomes (faults : Fault → Reader ν → Fault → Reader → Prop) (refuses : Fault → Prop)
    (Q : α → Reader ν → Reader → Prop) : EStateM.Result Fault (Reader ν) α → EStateM.Result Fault Reader α → Prop
  | ok {a : α} {r : Reader ν} {r' : Reader} : Q a r r' → Outcomes faults refuses Q (.ok a r) (.ok a r')
  | error {fault fault' : Fault} {r : Reader ν} {r' : Reader} :
    faults fault r fault' r' → Outcomes faults refuses Q (.error fault r) (.error fault' r')
  | refused {x : EStateM.Result Fault (Reader ν) α} {fault : Fault} {r' : Reader} :
    refuses fault → Outcomes faults refuses Q x (.error fault r')

/-- Where a step is done, or goes on. -/
def Goes (Q : σ → Reader ν → Reader → Prop) (P : Reader ν → Reader → Prop) :
    ForInStep σ → Reader ν → Reader → Prop
  | .done s => Q s
  | .yield _ => P

variable {faults : Fault → Reader ν → Fault → Reader → Prop} {refuses : Fault → Prop}
  {Q : α → Reader ν → Reader → Prop} {x : Recording ν α} {y : Reading α} {r : Reader ν} {r' : Reader}

namespace Outcomes

theorem imp {Q' : α → Reader ν → Reader → Prop} {x : EStateM.Result Fault (Reader ν) α}
    {y : EStateM.Result Fault Reader α} (h : Outcomes faults refuses Q x y)
    (hQ : ∀ a r r', y = .ok a r' → Q a r r' → Q' a r r') : Outcomes faults refuses Q' x y := by
  cases h with
  | ok ha => exact .ok (hQ _ _ _ rfl ha)
  | error hfault => exact .error hfault
  | refused hrefused => exact .refused hrefused

theorem bind {R : β → Reader ν → Reader → Prop} {f : α → Recording ν β} {g : α → Reading β}
    (h : Outcomes faults refuses Q (x r) (y r'))
    (k : ∀ a s s', Q a s s' → Outcomes faults refuses R (f a s) (g a s')) :
    Outcomes faults refuses R ((x >>= f) r) ((y >>= g) r') := by
  show Outcomes faults refuses R (EStateM.bind x f r) (EStateM.bind y g r')
  unfold EStateM.bind
  generalize x r = x, y r' = y at h
  cases h with
  | ok ha => exact k _ _ _ ha
  | error hfault => exact .error hfault
  | refused hrefused => exact .refused hrefused

/-- A step that goes on has moved, so a loop ends with a step that is done. -/
theorem loop {P : Reader ν → Reader → Prop} {Q : σ → Reader ν → Reader → Prop}
    {step : σ → Recording ν (ForInStep σ)} {step' : σ → Reading (ForInStep σ)}
    (hlength : ∀ r r', P r r' → r.remaining.length = r'.remaining.length)
    (h : ∀ s r r', P r r' →
      Outcomes faults refuses (Goes Q fun t t' => P t t' ∧ t'.size < r'.size) (step s r) (step' s r'))
    (hP : P r r') (s : σ) : Outcomes faults refuses Q (Reading.loop step s r) (Reading.loop step' s r') := by
  have hwithin (fuel fuel' : List Answer) (hfuel : fuel.length = fuel'.length) (s : σ) (r : Reader ν) (r' : Reader)
      (hP : P r r') (hsize : r'.size ≤ fuel'.length) :
      Outcomes faults refuses Q (Reading.loopWithin step fuel s r) (Reading.loopWithin step' fuel' s r') := by
    induction fuel generalizing fuel' s r r' with
    | nil =>
      obtain rfl := List.length_eq_zero_iff.mp hfuel.symm
      refine (h s r r' hP).bind fun next t t' hnext => ?_
      cases next with
      | done s => exact .ok hnext
      | yield s =>
        -- nothing was left, so there is nothing to go on with
        have hlt := hnext.2
        simp only [List.length_nil] at hsize
        omega
    | cons answer fuel ih =>
      obtain ⟨answer', fuel', rfl⟩ := List.exists_cons_of_length_eq_add_one hfuel.symm
      refine (h s r r' hP).bind fun next t t' hnext => ?_
      cases next with
      | done s => exact .ok hnext
      | yield s =>
        have hlt := hnext.2
        simp only [List.length_cons] at hfuel hsize
        exact ih fuel' (by omega) s t t' hnext.1 (by omega)
  exact hwithin _ _ (hlength r r' hP) s r r' hP r'.size_le_length

theorem skipNewlines [Record ν] {P : Reader ν → Reader → Prop}
    (hlength : ∀ r r', P r r' → r.remaining.length = r'.remaining.length)
    (hvalue : ∀ r r', P r r' → r.current.value = r'.current.value)
    (h : ∀ r r', P r r' → r'.current.value = .newline →
      Outcomes faults refuses (fun _ => P) (Reading.advance r) (Reading.advance r'))
    (hP : P r r') :
    Outcomes faults refuses (fun _ s s' => P s s' ∧ s'.current.value ≠ .newline) (Reading.skipNewlines r)
      (Reading.skipNewlines r') := by
  refine loop (P := P) hlength (fun _ r r' hP => ?_) hP ()
  rw [Reading.skipStep, Reading.skipStep, Reading.token_bind, Reading.token_bind, hvalue r r' hP]
  by_cases ht : r'.current.value = .newline
  · rw [if_pos (beq_iff_eq.mpr ht), if_pos (beq_iff_eq.mpr ht)]
    have hadvance := (h r r' hP ht).imp fun _ s s' hadvance hs =>
      And.intro hs (Reader.size_lt_of_advance hadvance (by simp [ht]))
    exact hadvance.bind fun _ _ _ hs => .ok hs
  · have hne : ¬ (r'.current.value == Token.newline) = true := by rwa [beq_iff_eq]
    rw [if_neg hne, if_neg hne]
    exact .ok ⟨hP, ht⟩

end Outcomes

end

/-! ## locksteps -/

/-- The second of two runs may be refused converters that the first one is admitted. -/
structure Stricter (config config' : Config) where
  refuses : Fault → Prop
  admits : ∀ {name}, config'.admits name = true → config.admits name = true
  refused : ∀ {position name}, config.admits name = true → config'.admits name = false →
    refuses ⟨position, .unknownConverter name⟩

def Stricter.same (config : Config) : Stricter config config where
  refuses _ := False
  admits h := h
  refused h h' := Bool.noConfusion (h.symm.trans h')

/-- What two runs have in common, some parentheses further in than they began. -/
structure Lockstep (ν : Type) [Record ν] (config config' : Config) extends Stricter config config' where
  tokens : Located Token → Located Token → Prop
  readers : Nat → Reader ν → Reader → Prop
  /-- Where the second reader has come to. -/
  At : Place (Located Token) → Reader → Prop
  faults : Nat → Fault → Reader ν → Fault → Reader → Prop
  value_eq : ∀ {t t'}, tokens t t' → t.value = t'.value
  current : ∀ {d r r'}, readers d r r' → tokens r.current r'.current
  length_eq : ∀ {d r r'}, readers d r r' → r.remaining.length = r'.remaining.length
  depth_eq : ∀ {d r r'}, readers d r r' → r.depth = r'.depth
  plain : ∀ {d r r' t t' cause}, readers d r r' → tokens t t' → cause.isPlain = true →
    faults d ⟨t.position, cause⟩ r ⟨t'.position, cause⟩ r'
  unterminated : ∀ {d r r' o o'}, readers d r r' → tokens o o' → o.value = .identifier "instr" →
    faults d ⟨r.current.position, .unterminatedBlock o.position.line⟩ r
      ⟨r'.current.position, .unterminatedBlock o'.position.line⟩ r'
  unknown : ∀ {d r r' name found}, readers d r r' → At .due r' → r'.current.value = .identifier name →
    pFieldDigits? name = none → found ∈ r'.ahead → found.value = .openParen → config'.admits name = false →
    faults d ⟨r.current.position, .unknownConverter name⟩ r ⟨r'.current.position, .unknownConverter name⟩ r'
  advance : ∀ {d p r r'}, readers d r r' → At p r' → r'.current.value ≠ .endOfInput →
    r'.current.value ≠ .openParen → Outcomes (faults d) refuses
      (fun _ s s' => readers d s s' ∧ At (p.after Located.value r'.current) s') (Reading.advance r)
      (Reading.advance r')
  peek : ∀ {d p r r' name}, readers d r r' → At p r' → r'.current.value = .identifier name →
    Outcomes (faults d) refuses (fun _ s s' => readers d s s' ∧ At p s') (Reading.peek r) (Reading.peek r')
  opening : ∀ {d p r r'}, readers d r r' → At p r' → r'.current.value = .openParen →
    p.after Located.value r'.current = .due →
    (∀ name ∈ p.called Located.value r'.current, config'.admits name.value.text = true) →
    Outcomes (faults d) refuses (fun _ s s' => readers (d + 1) s s' ∧ At .due s')
      ((Reading.advance >>= fun _ => Reading.enter >>= fun _ => Reading.skipNewlines) r)
      ((Reading.advance >>= fun _ => Reading.enter >>= fun _ => Reading.skipNewlines) r')
  readers_leave : ∀ {d r r'}, readers (d + 1) r r' →
    readers d (r.atDepth (r.depth - 1)) (r'.atDepth (r'.depth - 1))
  at_leave : ∀ {p r'}, At p r' → At p (r'.atDepth (r'.depth - 1))
  faults_leave : ∀ {d fault r fault' r'}, faults (d + 1) fault r fault' r' →
    faults d fault (r.atDepth (r.depth - 1)) fault' (r'.atDepth (r'.depth - 1))

theorem Located.value_congr {t t' : Located Token} (h : t = t') : t.value = t'.value := congrArg _ h

def Anywhere (_ : Place (Located Token)) (_ : Reader) : Prop := True

theorem Anywhere.leave {p : Place (Located Token)} {r : Reader} (_ : Anywhere p r) :
    Anywhere p (r.atDepth (r.depth - 1)) :=
  trivial

namespace Lockstep

variable {ν : Type} [Record ν] {config config' : Config} (L : Lockstep ν config config')

/-- From readers with the one property the runs come to the same, at readers with the other one, or they fail. -/
def Agree {α : Type} (d : Nat) (P : Reader ν → Reader → Prop) (x : Recording ν α) (y : Reading α)
    (Q : α → Reader ν → Reader → Prop) : Prop :=
  ∀ r r', L.readers d r r' → P r r' → Outcomes (L.faults d) L.refuses
    (fun a s s' => L.readers d s s' ∧ s'.size ≤ r'.size ∧ Q a s s') (x r) (y r')

def Here (p : Place (Located Token)) (_ : Reader ν) (r' : Reader) : Prop := L.At p r'

def On (p : Place (Located Token)) (t : Located Token) (_ : Reader ν) (r' : Reader) : Prop :=
  L.At p r' ∧ r'.current = t

end Lockstep

namespace Reading

section
variable {ν α β σ : Type} [Record ν] {config config' : Config} {L : Lockstep ν config config'} {d : Nat}
  {P P' : Reader ν → Reader → Prop} {Q : α → Reader ν → Reader → Prop} {R : β → Reader ν → Reader → Prop}
  {x : Recording ν α} {y : Reading α} {p q : Place (Located Token)} {t : Located Token}

/-! ## what readings are made of -/

theorem agree_of_pre (h : L.Agree d P x y Q) (hP : ∀ r r', P' r r' → P r r') : L.Agree d P' x y Q :=
  fun r r' hr h' => h r r' hr (hP r r' h')

theorem agree_of_post {Q' : α → Reader ν → Reader → Prop} (h : L.Agree d P x y Q)
    (hQ : ∀ a r r', Q a r r' → Q' a r r') : L.Agree d P x y Q' :=
  fun r r' hr hP => (h r r' hr hP).imp fun _ _ _ _ ⟨hs, hsize, ha⟩ => ⟨hs, hsize, hQ _ _ _ ha⟩

theorem agree_of_and {c : Prop} (h : c → L.Agree d P x y Q) : L.Agree d (fun r r' => P r r' ∧ c) x y Q :=
  fun r r' hr hP => h hP.2 r r' hr hP.1

theorem agree_frame {M : Nat → Prop} (h : L.Agree d P x y Q) (hM : ∀ m n, m ≤ n → M n → M m) :
    L.Agree d (fun r r' => P r r' ∧ M r'.size) x y (fun a r r' => Q a r r' ∧ M r'.size) :=
  fun r r' hr hP => (h r r' hr hP.1).imp fun _ _ _ _ ⟨hs, hsize, ha⟩ => ⟨hs, hsize, ha, hM _ _ hsize hP.2⟩

theorem agree_pure {a : α} (h : ∀ r r', P r r' → Q a r r') : L.Agree d P (pure a) (pure a) Q :=
  fun r r' hr hP => .ok ⟨hr, Nat.le_refl _, h r r' hP⟩

theorem agree_bind {f : α → Recording ν β} {g : α → Reading β} (h : L.Agree d P x y Q)
    (k : ∀ a, L.Agree d (Q a) (f a) (g a) R) : L.Agree d P (x >>= f) (y >>= g) R := by
  intro r r' hr hP
  refine (h r r' hr hP).bind fun a s s' ⟨hs, hsize, ha⟩ => ?_
  exact (k a s s' hs ha).imp fun _ _ _ _ ⟨ht, hsize', hb⟩ => ⟨ht, Nat.le_trans hsize' hsize, hb⟩

theorem agree_ite_bind {x₂ : Recording ν α} {y₂ : Reading α} {b : Bool} {f : α → Recording ν β}
    {g : α → Reading β} (h : L.Agree d P x y Q) (h₂ : L.Agree d P x₂ y₂ Q)
    (k : ∀ a, L.Agree d (Q a) (f a) (g a) R) :
    L.Agree d P (if b then x >>= f else x₂ >>= f) (if b then y >>= g else y₂ >>= g) R := by
  cases b with
  | true => exact agree_bind h k
  | false => exact agree_bind h₂ k

theorem agree_current_bind {f : Located Token → Recording ν β} {g : Located Token → Reading β}
    (k : ∀ t t', L.tokens t t' → L.Agree d (fun r r' => P r r' ∧ r'.current = t') (f t) (g t') R) :
    L.Agree d P (current >>= f) (current >>= g) R :=
  fun r r' hr hP => k r.current r'.current (L.current hr) r r' hr ⟨hP, rfl⟩

theorem agree_token_bind {f : Token → Recording ν β} {g : Token → Reading β}
    (k : ∀ t : Located Token, L.Agree d (fun r r' => P r r' ∧ r'.current = t) (f t.value) (g t.value) R) :
    L.Agree d P (token >>= f) (token >>= g) R := by
  intro r r' hr hP
  rw [token_bind, token_bind, L.value_eq (L.current hr)]
  exact k r'.current r r' hr ⟨hP, rfl⟩

theorem agree_faultAt {t t' : Located Token} {cause : Cause} (h : L.tokens t t') (hcause : cause.isPlain = true) :
    L.Agree d P (faultAt t.position cause) (faultAt t'.position cause) Q :=
  fun _ _ hr _ => .error (L.plain hr h hcause)

theorem agree_fault {cause : Cause} (hcause : cause.isPlain = true) : L.Agree d P (fault cause) (fault cause) Q :=
  fun _ _ hr _ => .error (L.plain hr (L.current hr) hcause)

theorem agree_unexpected (wanted : Wanted) : L.Agree d P (unexpected wanted) (unexpected wanted) Q :=
  agree_token_bind fun _ => agree_fault rfl

theorem agree_require {holds : Bool} {cause : Cause} (hcause : cause.isPlain = true) :
    L.Agree d P (require holds cause) (require holds cause) (fun _ => P) := by
  cases holds with
  | true => exact agree_pure fun _ _ h => h
  | false => exact agree_fault hcause

theorem agree_require_terminated {o o' : Located Token} (ho : L.tokens o o') (hinstr : o.value = .identifier "instr")
    {holds : Bool} :
    L.Agree d P (require holds (.unterminatedBlock o.position.line))
      (require holds (.unterminatedBlock o'.position.line)) (fun _ => P) := by
  cases holds with
  | true => exact agree_pure fun _ _ h => h
  | false => exact fun _ _ hr _ => .error (L.unterminated hr ho hinstr)

theorem agree_demand {wanted : Wanted} {accepts : Token → Bool} :
    L.Agree d P (demand wanted accepts) (demand wanted accepts)
      (fun _ r r' => P r r' ∧ accepts r'.current.value = true) := by
  apply agree_token_bind
  intro t
  by_cases ht : accepts t.value = true
  · rw [if_pos ht, if_pos ht]
    refine agree_pure ?_
    rintro r r' ⟨hP, rfl⟩
    exact ⟨hP, ht⟩
  · rw [if_neg ht, if_neg ht]
    exact agree_unexpected wanted

/-! ## moving on -/

theorem agree_advance (hend : t.value ≠ .endOfInput) (hopen : t.value ≠ .openParen)
    (hq : p.after Located.value t = q) :
    L.Agree d (L.On p t) advance advance (fun _ => L.Here q) := by
  rintro r r' hr ⟨hp, rfl⟩
  refine (L.advance hr hp hend hopen).imp fun _ s s' hadvance ⟨hs, hq'⟩ => ⟨hs, ?_, hq ▸ hq'⟩
  exact Reader.size_le_of_advance hadvance

theorem agree_move {n : Nat} (hend : t.value ≠ .endOfInput) (hopen : t.value ≠ .openParen)
    (hq : p.after Located.value t = q) :
    L.Agree d (fun r r' => (L.Here p r r' ∧ r'.size ≤ n) ∧ r'.current = t) advance advance
      (fun _ r r' => L.Here q r r' ∧ r'.size < n) := by
  rintro r r' hr ⟨⟨hp, hn⟩, rfl⟩
  refine (L.advance hr hp hend hopen).imp fun _ s s' hadvance ⟨hs, hq'⟩ => ?_
  have hlt := Reader.size_lt_of_advance hadvance hend
  exact ⟨hs, Nat.le_of_lt hlt, hq ▸ hq', Nat.lt_of_lt_of_le hlt hn⟩

theorem agree_peek {name : String} (ht : t.value = .identifier name) :
    L.Agree d (L.On p t) peek peek
      (fun next r r' => L.On p t r r' ∧ ∃ found ∈ r'.ahead, found.value = next) := by
  rintro r r' hr ⟨hp, rfl⟩
  refine (L.peek hr hp ht).imp fun next s s' hpeek ⟨hs, hp'⟩ => ?_
  obtain ⟨r₁, -, hnext, hs'⟩ := peek_eq_ok.mp hpeek
  refine ⟨hs, Reader.size_le_of_peek hpeek, ⟨hp', by rw [hs']⟩, r₁.current, ?_, hnext.symm⟩
  rw [hs']
  rfl

theorem agree_expect {wanted : Wanted} {found : Token} (hend : found ≠ .endOfInput) (hopen : found ≠ .openParen)
    (hq : ∀ t : Located Token, t.value = found → p.after Located.value t = q) :
    L.Agree d (L.Here p) (expect wanted found) (expect wanted found) (fun _ => L.Here q) := by
  refine agree_bind agree_demand fun _ r r' hr hP => ?_
  have ht := beq_iff_eq.mp hP.2
  exact agree_advance (ht ▸ hend) (ht ▸ hopen) (hq _ ht) r r' hr ⟨hP.1, rfl⟩

/-! ## repetition -/

theorem agree_loop {step : σ → Recording ν (ForInStep σ)} {step' : σ → Reading (ForInStep σ)}
    {Q : σ → Reader ν → Reader → Prop}
    (h : ∀ s n, L.Agree d (fun r r' => P r r' ∧ r'.size ≤ n) (step s) (step' s)
      (Goes Q fun r r' => P r r' ∧ r'.size < n)) (s : σ) :
    L.Agree d P (loop step s) (loop step' s) Q := by
  intro r r' hr hP
  refine Outcomes.loop (P := fun s s' => L.readers d s s' ∧ s'.size ≤ r'.size ∧ P s s')
    (fun s s' hs => L.length_eq hs.1) (fun a s s' ⟨hs, hle, hP⟩ => ?_) ⟨hr, Nat.le_refl _, hP⟩ s
  refine (h a s'.size s s' hs ⟨hP, Nat.le_refl _⟩).imp fun next t t' _ ⟨ht, hsize, hnext⟩ => ?_
  cases next with
  | done a => exact ⟨ht, Nat.le_trans hsize hle, hnext⟩
  | yield a => exact ⟨⟨ht, Nat.le_trans hsize hle, hnext.1⟩, hnext.2⟩

theorem agree_skipWhile {skips : Token → Bool}
    (h : ∀ t : Located Token, skips t.value = true →
      t.value ≠ .endOfInput ∧ t.value ≠ .openParen ∧ p.after Located.value t = p) :
    L.Agree d (L.Here p) (skipWhile skips) (skipWhile skips) (fun _ => L.Here p) := by
  refine agree_loop (fun _ n => agree_token_bind fun t => ?_) ()
  by_cases ht : skips t.value = true
  · obtain ⟨hend, hopen, hafter⟩ := h t ht
    rw [if_pos ht, if_pos ht]
    exact agree_bind (agree_move hend hopen hafter) fun _ => agree_pure fun _ _ h => h
  · rw [if_neg ht, if_neg ht]
    exact agree_pure fun _ _ h => h.1.1

theorem agree_skipNewlines (hp : p = .idle ∨ p = .due) :
    L.Agree d (L.Here p) skipNewlines skipNewlines (fun _ => L.Here p) := by
  refine agree_skipWhile fun t ht => ?_
  rw [beq_iff_eq] at ht
  rcases hp with rfl | rfl <;> simp [Place.after, Place.behind, ht, Token.asksOperand]

theorem agree_skipSeparators : L.Agree d (L.Here .idle) skipSeparators skipSeparators (fun _ => L.Here .idle) := by
  refine agree_skipWhile fun t ht => ?_
  rcases Token.isSeparator_iff.mp ht with ht | ht <;> simp [Place.after, Place.behind, ht, Token.asksOperand]

theorem agree_skipInsignificant :
    L.Agree d (L.Here .idle) skipInsignificant skipInsignificant (fun _ => L.Here .idle) := by
  intro r r' hr hP
  rw [skipInsignificant, skipInsignificant, get_bind, get_bind, L.depth_eq hr]
  split
  · exact agree_skipNewlines (.inl rfl) r r' hr hP
  · exact .ok ⟨hr, Nat.le_refl _, hP⟩

section
variable {item : σ → Recording ν σ} {item' : σ → Reading σ}

theorem agree_list (h : ∀ s, L.Agree d (L.Here .due) (item s) (item' s) (fun _ => L.Here .idle)) (s : σ) :
    L.Agree d (L.Here .due) (list item s) (list item' s) (fun _ => L.Here .idle) := by
  refine agree_loop (fun s n => ?_) s
  refine agree_bind (agree_frame (h s) fun _ _ => Nat.le_trans) fun s => agree_token_bind fun t => ?_
  by_cases ht : t.value = .comma
  · have hafter : Place.idle.after Located.value t = .due := by
      rw [Place.after_idle, ht]
      rfl
    rw [if_pos ht, if_pos ht]
    refine agree_bind (agree_move (by simp [ht]) (by simp [ht]) hafter) fun _ => ?_
    refine agree_bind (agree_frame (agree_skipNewlines (.inr rfl)) fun _ _ => Nat.lt_of_le_of_lt) fun _ => ?_
    exact agree_pure fun _ _ h => h
  · rw [if_neg ht, if_neg ht]
    exact agree_pure fun _ _ h => h.1.1

theorem agree_sequence {ends : Token → Bool} {wanted : Wanted}
    (h : ∀ s n, L.Agree d (fun r r' => L.Here .idle r r' ∧ r'.size ≤ n) (item s) (item' s)
      (fun _ r r' => L.Here .idle r r' ∧ r'.size < n)) (s : σ) :
    L.Agree d (L.Here .idle) (sequence ends wanted item s) (sequence ends wanted item' s)
      (fun _ r r' => L.Here .idle r r' ∧ ends r'.current.value = true) := by
  refine agree_loop (fun s n => ?_) s
  refine agree_bind (agree_frame agree_skipSeparators fun _ _ => Nat.le_trans) fun _ => agree_token_bind fun t => ?_
  by_cases hends : ends t.value = true
  · rw [if_pos hends, if_pos hends]
    refine agree_pure ?_
    rintro r r' ⟨⟨hr, -⟩, rfl⟩
    exact ⟨hr, hends⟩
  · rw [if_neg hends, if_neg hends]
    refine agree_bind (agree_of_pre (h s n) fun _ _ h => h.1) fun s => ?_
    exact agree_bind agree_demand fun _ => agree_pure fun _ _ h => h.1

end

/-! ## parentheses -/

theorem agree_leaving {r : Reader ν} {r' : Reader}
    (h : L.Agree (d + 1) (L.Here p) x y (fun _ => L.Here q)) (hr : L.readers (d + 1) r r') (hp : L.At p r') :
    Outcomes (L.faults d) L.refuses (fun _ s s' => L.readers d s s' ∧ s'.size ≤ r'.size ∧ L.Here q s s')
      (leaving x r) (leaving y r') := by
  have hinner := h r r' hr hp
  unfold leaving
  generalize x r = x, y r' = y at hinner
  cases hinner with
  | ok hs => exact .ok ⟨L.readers_leave hs.1, hs.2.1, L.at_leave hs.2.2⟩
  | error hfault => exact .error (L.faults_leave hfault)
  | refused hrefused => exact .refused hrefused

theorem size_le_of_opening {r r' : Reader} {u : Unit}
    (h : (advance >>= fun _ => enter >>= fun _ => skipNewlines) r = .ok u r') : r'.size ≤ r.size := by
  obtain ⟨_, r₁, hadvance, hskip⟩ := bind_eq_ok.mp h
  rw [enter_bind] at hskip
  have hle : r'.size ≤ (r₁.atDepth (r₁.depth + 1)).size := size_le_of_skipWhile (by decide) hskip
  rw [Reader.size_atDepth] at hle
  exact Nat.le_trans hle (Reader.size_le_of_advance hadvance)

theorem agree_closing (e : Expr) :
    L.Agree d (L.Here .idle) (do skipNewlines; expect .closing .closeParen; return e)
      (do skipNewlines; expect .closing .closeParen; return e) (fun _ => L.Here .idle) := by
  have hafter (t : Located Token) (ht : t.value = .closeParen) : Place.idle.after Located.value t = .idle := by
    rw [Place.after_idle, ht]
    rfl
  refine agree_bind (agree_skipNewlines (.inl rfl)) fun _ => ?_
  exact agree_bind (agree_expect (by simp) (by simp) hafter) fun _ => agree_pure fun _ _ h => h

/-- An opening parenthesis is gone past together with all up to the closing one. -/
theorem agree_opened {inner : Recording ν Expr} {inner' : Reading Expr} (ht : t.value = .openParen)
    (hafter : p.after Located.value t = .due)
    (hcalled : ∀ name ∈ p.called Located.value t, config'.admits name.value.text = true)
    (h : ∀ d, L.Agree d (L.Here .due) inner inner' (fun _ => L.Here .idle)) :
    L.Agree d (L.On p t) (advance >>= fun _ => parenthesized inner) (advance >>= fun _ => parenthesized inner')
      (fun _ => L.Here .idle) := by
  rintro r r' hr ⟨hp, rfl⟩
  -- a fault on the newlines leaves the depth raised, so they belong to the opening and not to what is left again
  have hassoc {μ : Type} [Record μ] (inner : Recording μ Expr) :
      (advance >>= fun _ => parenthesized inner) = (advance >>= fun _ => enter >>= fun _ => skipNewlines) >>=
        fun _ => leaving inner >>= fun e => do skipNewlines; expect .closing .closeParen; return e := by
    simp only [parenthesized, bind_assoc]
  rw [hassoc, hassoc]
  have hopening := (L.opening hr hp ht hafter hcalled).imp fun _ s s' hrun hs =>
    And.intro (size_le_of_opening hrun) hs
  refine hopening.bind fun _ s s' ⟨hsize, hs, hdue⟩ => ?_
  refine (agree_leaving (h (d + 1)) hs hdue).bind fun e u u' ⟨hu, hsize', hidle⟩ => ?_
  refine (agree_closing e u u' hu hidle).imp fun _ v v' _ ⟨hv, hsize'', hidle'⟩ => ?_
  exact ⟨hv, Nat.le_trans hsize'' (Nat.le_trans hsize' hsize), hidle'⟩

end

end Reading

end GraphicScore
