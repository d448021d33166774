import ClassRefactor.Proofs.Guarded.Declaration
import ClassRefactor.Proofs.Tree.Content

/-!
# Guarded types and names

A type is taken apart at byte offsets: its argument list is found in its cells, counted with
guarded differences, and its parts are cut between characters. A declaration that was cut out is
split at its last identifier in the same way, by offsets within what was cut out.
-/

namespace ClassRefactor.Guarded

/-- Reads a type from source text. -/
def typeRef (t : Text) : Guarded TypeRef :=
  if t.trim.head? == some '(' then return ⟨.ofList t.trim.compact, [], ""⟩
  else do
    let less := Code.leading (· != '<') t.trim.cells
    match ← matchingClose '<' '>' t.trim.cells less with
    | none => return ⟨.ofList t.trim.strip, [], ""⟩
    | some close =>
      let name ← cut t.trim ⟨0, less⟩
      let inner ← cut t.trim ⟨less + 1, close⟩
      let args ← (← commaRanges inner.cells 0 inner.size).mapM fun r => do
        let piece ← cut inner r
        if piece.length < t.length then typeRef piece else throw (.stalled t.length)
      let suffix ← cut t.trim ⟨close + 1, t.trim.size⟩
      return ⟨.ofList name.strip, args, .ofList suffix.strip⟩
termination_by t.length

theorem cut_middle (a b c : Text) : cut (a ++ b ++ c) ⟨a.size, a.size + b.size⟩ = .ok b := by
  refine cut_eq ?_
  have hb : Text.isBoundary (a ++ b ++ c) a.size = true := by
    rw [List.append_assoc]
    exact Text.isBoundary_iff.mpr ⟨a, _, rfl, rfl⟩
  have he : Text.isBoundary (a ++ b ++ c) (a.size + b.size) = true :=
    Text.isBoundary_iff.mpr ⟨a ++ b, c, rfl, by simp⟩
  simp [Text.read, hb, he, -List.append_assoc]

/-- Pieces with commas between them are cut out where they are spread. -/
theorem cut_spread (front p : Text) (ps : List Text) :
    List.Forall₂ (fun r q => cut (front ++ (p ++ ps.flatMap (',' :: ·))) r = .ok q)
      (Code.spread front.size ((p :: ps).map Text.cells)) (p :: ps) := by
  induction ps generalizing front p with
  | nil =>
    have h := cut_middle front p []
    simpa [Code.spread] using h
  | cons q qs ih =>
    have hfirst := cut_middle front p ((q :: qs).flatMap (',' :: ·))
    have hrest := ih (front ++ p ++ [',']) q
    have hcomma : Char.utf8Size ',' = 1 := by decide
    refine .cons (by simpa [Code.spread] using hfirst) ?_
    simpa [hcomma, Nat.add_assoc] using hrest

theorem mapM_eq_ok_of_forall₂ {α β γ ε : Type} {f : α → Except ε γ} {g : β → γ} {as : List α}
    {bs : List β} (h : List.Forall₂ (fun a b => f a = .ok (g b)) as bs) :
    as.mapM f = .ok (bs.map g) :=
  mapM_eq_ok_iff.mpr (by simpa using h)

/-- The angle brackets of a type are found in its cells where they stand in its characters. -/
theorem matchingClose?_cells (t : Text) :
    Code.matchingClose? '<' '>' t.cells (Code.leading (· != '<') t.cells) =
      (TypeRef.splitArguments? t).map fun p => p.1.size + 1 + p.2.1.size := by
  have hsplit := List.takeWhile_append_dropWhile (p := (· != '<')) (l := t)
  have hhead := List.head?_dropWhile_not (· != '<') t
  have hdropped : t.cells.drop (Text.size (t.takeWhile (· != '<'))) =
      Text.cells (t.dropWhile (· != '<')) := by
    have hdrop := Text.cells_drop_size (t.takeWhile (· != '<')) (t.dropWhile (· != '<'))
    rwa [hsplit] at hdrop
  rw [Text.leading_cells, Code.matchingClose?, hdropped, TypeRef.splitArguments?]
  cases hdrop : t.dropWhile (· != '<') with
  | nil => rfl
  | cons c rest =>
    rw [hdrop] at hhead
    have hc : c = '<' := by simpa using hhead
    have hcells : Text.cells ('<' :: rest) = '<' :: Text.cells rest := rfl
    have hclose := Code.closeFrom_cells (by decide : Char.utf8Size '<' = 1)
      (by decide : Char.utf8Size '>' = 1) 0 rest
    simp only [hc, hcells, beq_self_eq_true, if_true, hclose, Option.map_map]
    rfl

/-- The arguments between the angle brackets of a type, cut out and read one after another. -/
theorem mapM_arguments (inner : Text) (f : Text → Guarded TypeRef)
    (hf : ∀ q : Text, q.length ≤ inner.length → f q = .ok (TypeRef.parse q)) :
    (Code.spread 0 ((Code.commaPieces inner).map Text.cells)).mapM
        (fun r => do f (← cut inner r)) =
      .ok ((Code.commaPieces inner).map TypeRef.parse) := by
  obtain ⟨p, ps, hpieces, hjoin⟩ := Code.exists_commaPiecesFrom [] inner 0 0
  have hcut := cut_spread [] p ps
  rw [List.nil_append, hjoin] at hcut
  rw [Code.commaPieces, hpieces]
  refine mapM_eq_ok_of_forall₂ (forall₂_imp_of_mem hcut fun r q hq hr => ?_)
  have hle := TypeRef.length_le_of_mem_commaPiecesFrom (hpieces ▸ hq)
  rw [show cut inner r = .ok q from hr, ok_bind, hf q (by simpa using hle)]

theorem typeRef_eq (t : Text) : typeRef t = .ok (TypeRef.parse t) := by
  induction hn : t.length using Nat.strongRecOn generalizing t with
  | ind n ih =>
    rw [typeRef, TypeRef.parse_eq]
    split
    · rfl
    · simp only [matchingClose_eq (by decide : '<' ≠ '>'), ok_bind, matchingClose?_cells]
      cases hsplit : TypeRef.splitArguments? t.trim with
      | none => rfl
      | some parts =>
        obtain ⟨name, inner, suffix⟩ := parts
        have hshort := TypeRef.length_lt_of_splitArguments? hsplit
        have htrim := TypeRef.length_trim_le t
        obtain ⟨htext, hname⟩ := TypeRef.eq_of_splitArguments? hsplit
        rw [Text.leading_cells, ← hname]
        -- The parts of the type stand between its angle brackets.
        have hless : Char.utf8Size '<' = 1 := by decide
        have hgreater : Char.utf8Size '>' = 1 := by decide
        have hcutName : cut t.trim ⟨0, name.size⟩ = .ok name := by
          rw [htext]
          simpa using cut_middle [] name ('<' :: (inner ++ '>' :: suffix))
        have hcutInner : cut t.trim ⟨name.size + 1, name.size + 1 + inner.size⟩ = .ok inner := by
          rw [htext]
          simpa [hless] using cut_middle (name ++ ['<']) inner ('>' :: suffix)
        have hcutSuffix : cut t.trim ⟨name.size + 1 + inner.size + 1, t.trim.size⟩ =
            .ok suffix := by
          rw [htext]
          simpa [hless, hgreater, Nat.add_assoc] using
            cut_middle (name ++ '<' :: (inner ++ ['>'])) suffix []
        have hranges : commaRanges inner.cells 0 inner.size =
            .ok (Code.spread 0 ((Code.commaPieces inner).map Text.cells)) := by
          have hwhole : Code.window inner.cells 0 inner.size = inner.cells := by
            rw [Code.window, List.drop_zero, Nat.sub_zero, List.take_of_length_le (by simp)]
          rw [commaRanges_eq (Nat.zero_le _) (by simp), Code.commaRanges, hwhole,
            Code.commaPieces_cells]
        -- Each argument is a shorter text, and is read by the same steps.
        have hargs := mapM_arguments inner (fun piece =>
          if piece.length < t.length then typeRef piece else throw (.stalled t.length))
          fun q hq => by rw [if_pos (by omega), ih q.length (by omega) q rfl]
        simp only [Option.map_some, hcutName, hcutInner, hcutSuffix, hranges, hargs, ok_bind,
          pure_eq_ok]

/-- A declaration split at its last identifier. -/
structure NameSplit where
  /-- The size of the type and of the white space before it. -/
  typeSize : Nat
  name : Range
  text : Text

/-- Splits a text of a type and a name at its last identifier. -/
def typeAndName (t : Text) : Guarded (Option NameSplit) := do
  let stop ← trimBlanks t.cells 0 t.size
  let start ← runDown isIdentCell t.cells 0 stop
  if start == stop then return none
  else
    let text ← cut t ⟨start, stop⟩
    let type := (← cut t ⟨0, start⟩).trimEnd
    let offset ← minus t.size t.trimStart.size
    if type.trim.isEmpty then return none
    else
      let whole ← cut t ⟨0, offset + type.trimStart.size⟩
      return some { typeSize := whole.size, name := ⟨start, stop⟩, text }

/-- A text that does not end in white space holds none of it only if it is empty. -/
theorem trim_trimEnd_isEmpty (t : Text) : t.trimEnd.trim.isEmpty = (t.trimEnd.size == 0) := by
  have hlast := List.head?_dropWhile_not isWhite t.reverse
  have hrev : t.trimEnd.reverse = t.reverse.dropWhile isWhite := by
    rw [Text.trimEnd, List.reverse_reverse]
  rw [← hrev, List.head?_reverse] at hlast
  cases h : t.trimEnd with
  | nil => rfl
  | cons c u =>
    rw [← h]
    have hne : t.trimEnd.size ≠ 0 := by
      have := Char.utf8Size_pos c
      rw [h, Text.size_cons]
      omega
    have htrim : t.trimEnd.trim ≠ [] := by
      intro hnil
      have hstrip : Text.strip t.trimEnd = [] := by
        rw [← Text.strip_trim, hnil, Text.strip_nil]
      obtain ⟨d, hd⟩ : ∃ d, t.trimEnd.getLast? = some d := by
        rw [h]
        exact ⟨_, List.getLast?_cons⟩
      rw [hd] at hlast
      have hwhite := Text.strip_eq_nil_iff.mp hstrip d (List.mem_of_getLast? hd)
      simp only at hlast
      rw [hwhite] at hlast
      cases hlast
    rw [beq_eq_false_iff_ne.mpr hne]
    simpa using htrim

/-- The white space before a type and the type after it make up the type with that white space. -/
theorem leading_add_size_trimStart {type : Text} (rest : Text) (h : type.trim.isEmpty = false) :
    Code.leading isWhite (Text.cells (type ++ rest)) + type.trimStart.size = type.size := by
  have hsome : ¬ (type.takeWhile isWhite).length = type.length := by
    intro hall
    have hself : type.takeWhile isWhite = type :=
      (List.takeWhile_prefix isWhite).eq_of_length hall
    have hdrop : type.trimStart = [] := by
      have hsplit := List.takeWhile_append_dropWhile (p := isWhite) (l := type)
      rw [hself] at hsplit
      simpa [Text.trimStart] using hsplit
    simp [Text.trim, hdrop, Text.trimEnd] at h
  have hsize := congrArg Text.size (List.takeWhile_append_dropWhile (p := isWhite) (l := type))
  rw [Text.size_append] at hsize
  rw [Text.leading_cells, List.takeWhile_append, if_neg hsome, Text.trimStart, hsize]

theorem typeAndName_eq (t : Text) :
    typeAndName t = .ok ((Code.typeAndName? t.cells 0 t.size).map fun p =>
      { typeSize := p.1.stop, name := p.2, text := t.slice p.2.start p.2.stop }) := by
  have hzero := Code.seam_zero t.cells
  have hsize : Code.Seam t.cells t.size := by simpa using Code.seam_length t.cells
  obtain ⟨-, -, hstop⟩ := Code.trimBlanks_spec (Nat.zero_le _) hzero hsize
  rw [typeAndName, trimBlanks_eq (Nat.zero_le _) (by simp), ok_bind,
    runDown_eq isIdentCell (Nat.zero_le _) hstop.le, ok_bind]
  simp only [Code.typeAndName?]
  generalize Code.trimBlanks t.cells 0 t.size = stop at hstop
  have hstart := Code.seam_runBack isIdentCell (Nat.zero_le _) hzero hstop
  have hle := Nat.sub_le stop (Code.trailing isIdentCell (Code.window t.cells 0 stop))
  generalize stop - Code.trailing isIdentCell (Code.window t.cells 0 stop) = start at hstart hle
  obtain ⟨hname, -⟩ := cut_of_fits (t := t) (r := ⟨start, stop⟩) ⟨hle, hstart, hstop⟩
  obtain ⟨hfront, hcells⟩ := cut_of_fits (t := t) (r := ⟨0, start⟩) ⟨Nat.zero_le _, hzero, hstart⟩
  have htype : (t.slice 0 start).trimEnd.size =
      start - Code.trailing isWhite (Code.window t.cells 0 start) := by
    rw [Text.size_trimEnd, hcells, ← Text.length_cells, hcells, Code.length_window_of_le hstart.le,
      Nat.sub_zero]
  have hoffset : minus t.size t.trimStart.size = .ok (Code.leading isWhite t.cells) := by
    have hlead := Code.leading_le isWhite t.cells
    rw [Text.length_cells] at hlead
    rw [Text.size_trimStart, minus_eq (Nat.sub_le ..), Nat.sub_sub_self hlead]
  have htypeSeam := Code.seam_runBack isWhite (Nat.zero_le _) hzero hstart
  rw [← htype] at htypeSeam ⊢
  split
  · rename_i hempty
    simp [hempty]
  · rename_i hne
    rw [hname, ok_bind, hfront, ok_bind, hoffset, ok_bind, trim_trimEnd_isEmpty]
    split
    · rename_i hempty
      simp [hempty]
    · rename_i hsome
      -- The type begins with the white space that the whole text begins with.
      obtain ⟨w, hw, -⟩ := Text.exists_trimEnd_append (t.slice 0 start)
      have hsplit : t = (t.slice 0 start).trimEnd ++ (w ++ t.after start) := by
        rw [← List.append_assoc, ← hw, Text.slice, Text.after_zero, Nat.sub_zero,
          Text.before_append_after]
      have hsum := leading_add_size_trimStart (w ++ t.after start)
        ((trim_trimEnd_isEmpty _).trans (by simpa using hsome))
      rw [← hsplit] at hsum
      obtain ⟨hwhole, hwholeCells⟩ := cut_of_fits (t := t)
        (r := ⟨0, (t.slice 0 start).trimEnd.size⟩) ⟨Nat.zero_le _, hzero, htypeSeam⟩
      have hwholeSize := congrArg List.length hwholeCells
      rw [Text.length_cells, Code.length_window_of_le htypeSeam.le, Nat.sub_zero] at hwholeSize
      rw [hsum, hwhole, ok_bind, pure_eq_ok, hwholeSize]
      simp [hne, hsome]

end ClassRefactor.Guarded
