import GraphicScore.CommandLine
import GraphicScore.Proofs.Frame.Entities
import GraphicScore.Proofs.Source.Hyphens
import GraphicScore.Proofs.Source.WellFormed

/-!
# Comments of documents

A document has its canonical source in a comment as it is. Nothing in it, nor in the title, ends the comment
or begins another one: whoever looks for comments finds those that the frame has, with just that source in
one of them.
-/

namespace GraphicScore

/-! ## looking for comments -/

/-- What stands in front of a mark, where it is first found, and what stands behind it. -/
def cutAt (mark : List Char) : List Char → Option (List Char × List Char)
  | [] => none
  | c :: cs =>
    if mark.isPrefixOf (c :: cs) then some ([], (c :: cs).drop mark.length)
    else (cutAt mark cs).map fun (front, behind) => (c :: front, behind)

section
variable {a b : Char} {mark front behind cs rest : List Char}

theorem append_of_cutAt (h : cutAt mark cs = some (front, behind)) : cs = front ++ (mark ++ behind) := by
  induction cs generalizing front with
  | nil => contradiction
  | cons c cs ih =>
    rw [cutAt] at h
    split at h
    · rename_i hprefix
      cases h
      exact (List.prefix_iff_eq_append.mp (List.isPrefixOf_iff_prefix.mp hprefix)).symm
    · obtain ⟨⟨front', behind'⟩, hcs, heq⟩ := Option.map_eq_some_iff.mp h
      cases heq
      rw [List.cons_append, ← ih hcs]

theorem cutAt_append (h : Avoids a b front) :
    cutAt (a :: b :: mark) (front ++ (a :: b :: mark ++ rest)) = some (front, rest) := by
  induction front with
  | nil =>
    rw [List.nil_append, List.cons_append, cutAt, if_pos (by simp)]
    simp
  | cons c front ih =>
    have hprefix : ¬(a :: b :: mark).isPrefixOf (c :: (front ++ (a :: b :: mark ++ rest))) = true := by
      rw [List.isPrefixOf_iff_prefix]
      exact fun hmark => h.not_prefix (List.IsPrefix.trans ⟨mark, rfl⟩ hmark)
    rw [List.cons_append, cutAt, if_neg hprefix, ih h.tail]
    rfl

theorem cutAt_of_avoids (h : Avoids a b cs) : cutAt (a :: b :: mark) cs = none := by
  cases hcut : cutAt (a :: b :: mark) cs with
  | none => rfl
  | some split =>
    refine absurd ?_ h.1
    rw [append_of_cutAt hcut]
    exact ⟨split.1, mark ++ split.2, by simp⟩

end

def opener : List Char := ['<', '!', '-', '-']

def closer : List Char := ['-', '-', '>']

/--
The comments of a text, each with what stands outside in front of it, and what stands behind the last one.
A comment that is never closed has no contents.
-/
def comments (cs : List Char) : Option (List (List Char × List Char) × List Char) :=
  match _h : cutAt opener cs with
  | none => some ([], cs)
  | some (outside, behind) =>
    match _h' : cutAt closer behind with
    | none => none
    | some (contents, rest) => (comments rest).map fun (found, last) => ((outside, contents) :: found, last)
termination_by cs.length
decreasing_by
  rw [append_of_cutAt _h, append_of_cutAt _h']
  simp only [List.length_append, opener, closer, List.length_cons, List.length_nil]
  omega

def commented (contents : List Char) : List Char := opener ++ (contents ++ closer)

section
variable {outside contents rest : List Char}

theorem comments_of_avoids (h : Avoids '<' '!' rest) : comments rest = some ([], rest) := by
  rw [comments, opener, cutAt_of_avoids h]

theorem comments_commented (ho : Avoids '<' '!' outside) (hc : Avoids '-' '-' contents) :
    comments (outside ++ (commented contents ++ rest)) =
      (comments rest).map fun (found, last) => ((outside, contents) :: found, last) := by
  have hopen : cutAt opener (outside ++ (commented contents ++ rest)) =
      some (outside, contents ++ (closer ++ rest)) := by
    rw [commented, List.append_assoc, List.append_assoc]
    exact cutAt_append ho
  have hclose : cutAt closer (contents ++ (closer ++ rest)) = some (contents, rest) := cutAt_append hc
  rw [comments]
  split
  · simp_all
  · rename_i hcut
    cases hopen.symm.trans hcut
    split
    · simp_all
    · rename_i hcut'
      cases hclose.symm.trans hcut'
      rfl

/-- The first mark that closes a comment counts, and what is left stands outside. -/
example : comments "a<!--b-->c-->".toList = some ([(['a'], ['b'])], "c-->".toList) := by decide +kernel

end

/-! ## documents -/

/-- The comment on the instruments, which every document begins with. -/
def Frame.listing (d : Definitions) : String :=
  " csgraph 0.1.0: instruments " ++ " ".intercalate d.keys ++ " "

/-- The comment that every document closes with. -/
def Frame.tally (d : Definitions) : String := " end of " ++ toString d.size ++ " instrument(s) "

/-- What stands between the first comment and the body. -/
def Frame.prologue (f : Frame) : String :=
  "\n" ++ (f.opening ++ f.title.elim "" Frame.titleElement ++ f.background.elim "" f.backgroundElement)

section
variable {text : String}

theorem notMem_escaped : '<' ∉ (Frame.escaped text).toList :=
  fun hmem => (Frame.escapes_escaped text).plain '<' hmem (by decide)

theorem avoids_quoted (h : '<' ∉ text.toList) : Avoids '<' '!' (Frame.quoted text).toList :=
  avoids_of_notMem (by simpa [Frame.quoted] using h)

theorem avoids_size (size : UInt32) : Avoids '<' '!' (Frame.quoted (toString size.toNat)).toList :=
  avoids_quoted (notMem_digits rfl _)

theorem avoids_opening (f : Frame) : Avoids '<' '!' f.opening.toList := by
  have hbox : '<' ∉ ("0 0 " ++ toString f.width.toNat ++ " " ++ toString f.height.toNat).toList := by
    rw [String.toList_append, String.toList_append, String.toList_append]
    simp only [List.mem_append, not_or]
    exact ⟨⟨⟨by simp, notMem_digits rfl _⟩, by simp⟩, notMem_digits rfl _⟩
  unfold Frame.opening
  refine .text_append (.text_append (.text_append (.text_append (.text_append (.text_append ?_ (avoids_size _)) ?_)
    (avoids_size _)) ?_) (avoids_quoted hbox)) ?_
  · exact avoids_of_notMem_second (by simp) (by simp)
  all_goals exact avoids_of_notMem (by simp)

theorem avoids_titleElement (title : String) : Avoids '<' '!' (Frame.titleElement title).toList := by
  unfold Frame.titleElement
  refine .text_append (.text_append ?_ (avoids_of_notMem notMem_escaped)) ?_
  · exact avoids_of_notMem_second (by simp) (by simp)
  · exact avoids_of_notMem_second (by simp) (by simp)

theorem avoids_backgroundElement (f : Frame) (fill : String) :
    Avoids '<' '!' (f.backgroundElement fill).toList := by
  unfold Frame.backgroundElement
  refine .text_append (.text_append (.text_append (.text_append (.text_append (.text_append ?_ (avoids_size _)) ?_)
    (avoids_size _)) ?_) (avoids_quoted notMem_escaped)) ?_
  · exact avoids_of_notMem_second (by simp) (by simp)
  all_goals exact avoids_of_notMem (by simp)

theorem avoids_elim {option : Option String} {element : String → String}
    (h : ∀ text, Avoids '<' '!' (element text).toList) : Avoids '<' '!' (option.elim "" element).toList := by
  cases option with
  | none => exact avoids_nil
  | some text => exact h text

theorem avoids_prologue (f : Frame) : Avoids '<' '!' f.prologue.toList := by
  unfold Frame.prologue
  refine .text_append (avoids_of_notMem (by simp)) (.text_append ?_ (avoids_elim (avoids_backgroundElement f)))
  exact (avoids_opening f).text_append (avoids_elim avoids_titleElement)

theorem toList_append_append (s t u : String) :
    (s ++ t ++ u).toList = s.toList ++ (t.toList ++ u.toList) := by
  simp only [String.toList_append, List.append_assoc]

variable {d : Definitions}

theorem toList_contents : (Frame.contents d).toList = commented (Frame.listing d).toList ++ ['\n'] := by
  have hfront : "<!-- csgraph 0.1.0: instruments ".toList = opener ++ " csgraph 0.1.0: instruments ".toList := by
    simp [opener]
  have hback : " -->\n".toList = " ".toList ++ (closer ++ ['\n']) := by simp [closer]
  unfold Frame.contents Frame.listing commented
  rw [toList_append_append, toList_append_append, hfront, hback]
  simp only [List.append_assoc]

theorem toList_trailer : d.trailer.toList = commented (Frame.tally d).toList ++ "\n</svg>\n".toList := by
  have hfront : "<!-- end of ".toList = opener ++ " end of ".toList := by simp [opener]
  have hback : " instrument(s) -->\n</svg>\n".toList =
      " instrument(s) ".toList ++ (closer ++ "\n</svg>\n".toList) := by simp [closer]
  unfold Definitions.trailer Frame.tally commented
  rw [toList_append_append, toList_append_append, hfront, hback]
  simp only [List.append_assoc]

theorem toList_header (f : Frame) :
    (d.header f).toList =
      Frame.declaration.toList ++ (commented (Frame.listing d).toList ++ f.prologue.toList) := by
  have hsplit : d.header f = Frame.declaration ++ Frame.contents d ++
      (f.opening ++ f.title.elim "" Frame.titleElement ++ f.background.elim "" f.backgroundElement) := by
    simp only [Definitions.header, String.append_assoc]
  have hnewline (markup : String) : ("\n" ++ markup).toList = ['\n'] ++ markup.toList := by simp
  rw [hsplit, toList_append_append, toList_contents, Frame.prologue, hnewline, List.append_assoc]

theorem toList_body (text : String) :
    ("<!--\n" ++ text ++ "-->\n").toList = commented ('\n' :: text.toList) ++ ['\n'] := by
  have hfront : "<!--\n".toList = opener ++ ['\n'] := by simp [opener]
  have hback : "-->\n".toList = closer ++ ['\n'] := by simp [closer]
  rw [toList_append_append, hfront, hback, commented]
  simp

theorem avoids_listing : Avoids '-' '-' (Frame.listing d).toList := by
  unfold Frame.listing
  refine .text_append (.text_append (avoids_of_notMem (by simp)) ?_) (avoids_of_notMem (by simp))
  refine avoids_intercalate (avoids_of_notMem (by simp)) fun key hkey => ?_
  obtain ⟨number, rfl⟩ := exists_number_of_mem_keys hkey
  exact avoids_of_notMem (notMem_digits rfl _)

theorem avoids_tally : Avoids '-' '-' (Frame.tally d).toList := by
  unfold Frame.tally
  refine .text_append (.text_append ?_ (avoids_of_notMem (notMem_digits rfl _))) ?_
  · exact avoids_of_notMem (by simp)
  · exact avoids_of_notMem (by simp)

theorem comments_document (f : Frame) (h : Avoids '-' '-' text.toList) :
    comments (d.header f ++ "<!--\n" ++ text ++ "-->\n" ++ d.trailer).toList =
      some ([(Frame.declaration.toList, (Frame.listing d).toList), (f.prologue.toList, '\n' :: text.toList),
        (['\n'], (Frame.tally d).toList)], "\n</svg>\n".toList) := by
  have hsplit : d.header f ++ "<!--\n" ++ text ++ "-->\n" ++ d.trailer =
      d.header f ++ ("<!--\n" ++ text ++ "-->\n") ++ d.trailer := by
    simp only [String.append_assoc]
  have hdeclaration : Avoids '<' '!' Frame.declaration.toList :=
    avoids_of_notMem_second (by simp [Frame.declaration]) (by simp [Frame.declaration])
  have htext : Avoids '-' '-' ('\n' :: text.toList) := h.cons (by decide)
  have hlast : Avoids '<' '!' "\n</svg>\n".toList := avoids_of_notMem_second (by simp) (by simp)
  rw [hsplit, toList_append_append, toList_header, toList_body, toList_trailer]
  simp only [List.append_assoc]
  rw [comments_commented hdeclaration avoids_listing, comments_commented (avoids_prologue f) htext,
    comments_commented (avoids_of_notMem (by simp)) avoids_tally, comments_of_avoids hlast]
  rfl

end

/-! ## runs -/

section
variable {source : String} {r : Request} {d : Definitions}

theorem fromUTF8?_toUTF8 (text : String) : String.fromUTF8? text.toUTF8 = some text :=
  dif_pos text.isValidUTF8

theorem outcome_of_parse (h : parse source r.config = .ok d) :
    r.outcome (.ok source.toUTF8) = { exit := 0, output := r.print d } := by
  have hanswer : r.answer (.ok source.toUTF8) = .ok (r.print d) := by
    unfold Request.answer
    simp only [Except.mapError, bind, Except.bind, fromUTF8?_toUTF8, h]
    rfl
  rw [Request.outcome, hanswer]

end

/--
A score in a document cannot end the comment it stands in: its canonical source has no two hyphens in a row,
and the comments of the document are three, the second one with what a run without a frame prints.
-/
theorem comments_framed (source : String) :
    (∀ config d, parse source config = .ok d → ¬['-', '-'] <:+: d.toSource.toList) ∧
    ∀ (r : Request) (d : Definitions), parse source r.config = .ok d →
      let frame : Frame := { width := r.width, height := r.height, title := some r.file }
      let plain := ({ r with check := false, frame := false } : Request).outcome (.ok source.toUTF8)
      let framed := ({ r with check := false, frame := true } : Request).outcome (.ok source.toUTF8)
      plain.exit = 0 ∧ framed.exit = 0 ∧
        comments framed.output.toList =
          some ([(Frame.declaration.toList, (Frame.listing d).toList),
            (frame.prologue.toList, '\n' :: plain.output.toList),
            (['\n'], (Frame.tally d).toList)], "\n</svg>\n".toList) ∧
        ∀ contents ∈ [(Frame.listing d).toList, '\n' :: plain.output.toList, (Frame.tally d).toList],
          ¬['-', '-'] <:+: contents ∧ contents.getLast? ≠ some '-' := by
  have hyphens {config : Config} {d : Definitions} (h : parse source config = .ok d) :
      Avoids '-' '-' d.toSource.toList :=
    avoids_toSource fun b hb f hf => (Block.isRegular_feature (isRegular_of_parse h b hb) hf).1
  refine ⟨fun config d h => (hyphens h).1, fun r d h => ?_⟩
  have hplain : ({ r with check := false, frame := false } : Request).outcome (.ok source.toUTF8) =
      { exit := 0, output := d.toSource } := outcome_of_parse h
  have hframed := outcome_of_parse (r := { r with check := false, frame := true }) h
  intro frame
  rw [hplain, hframed]
  refine ⟨rfl, rfl, comments_document frame (hyphens h), ?_⟩
  simp only [List.forall_mem_cons]
  exact ⟨avoids_listing, (hyphens h).cons (by decide), avoids_tally, by simp⟩

/-- A subtraction of a negative constant, in a file whose name has both marks of a comment. -/
theorem comments_framed_minus :
    let source := "instr 1 do\n  line p2 - -5, p3, p4, p5\nend\n"
    let r : Request := { file := "--><!--.csg", frame := true }
    ∃ d, parse source = .ok d ∧ ¬['-', '-'] <:+: d.toSource.toList ∧
      (comments (r.outcome (.ok source.toUTF8)).output.toList).map (·.1.map Prod.snd) =
        some [" csgraph 0.1.0: instruments 1 ".toList, '\n' :: source.toList, " end of 1 instrument(s) ".toList] := by
  intro source r
  let difference : Expr := .binary .minus (.pField 2 []) (.constant (.int (-5))) []
  let d : Definitions := ⟨[⟨[1], ⟨[.line ⟨difference, .pField 3 [], .pField 4 [], .pField 5 [], .empty⟩]⟩⟩]⟩
  have hend : ∀ b ∈ d.blocks, ∀ f ∈ b.instrument.features, f.beginsWithEnd = false := by decide
  have hsource : d.toSource = source := by decide +kernel
  have hd : parse source r.config = .ok d := hsource ▸ parse_toSource (by decide) hend (by decide)
  have hplain : (({ r with frame := false } : Request).outcome (.ok source.toUTF8)).output = source := by
    have houtcome := outcome_of_parse (r := { r with frame := false }) hd
    rw [houtcome]
    exact hsource
  have hlisting : Frame.listing d = " csgraph 0.1.0: instruments 1 " := by decide +kernel
  have htally : Frame.tally d = " end of 1 instrument(s) " := by decide +kernel
  have hframed := (comments_framed source).2 r d hd
  refine ⟨d, hd, (comments_framed source).1 r.config d hd, ?_⟩
  rw [hframed.2.2.1, hplain, hlisting, htally]
  rfl

end GraphicScore
