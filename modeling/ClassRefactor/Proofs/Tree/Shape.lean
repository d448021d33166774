import ClassRefactor.Proofs.Text.Strip
import ClassRefactor.Code.Scan

/-!
# Texts up to formatting

What is left of a text without its white space is its characters and, for each `<`, whether it
stands directly after an identifier. Cutting a text at its commas depends on nothing else. If all
commas outside brackets stand outside angle brackets too, it does not even depend on the marks.
-/

namespace ClassRefactor

/-- A character that is not white space. A `<` may be marked as one that opens a list. -/
@[ext]
structure Sign where
  char : Char
  opens : Bool
  solid : isWhite char = false
  angle : opens = true → char = '<'

namespace Sign

/-- A character as it stands in a text. Only directly after an identifier a `<` opens a list. -/
def after (previous : Option Char) (c : Char) (h : isWhite c = false) : Sign where
  char := c
  opens := c == '<' && previous.any isIdentCell
  solid := h
  angle := fun hopens => beq_iff_eq.mp (Bool.and_eq_true_iff.mp hopens).1

def comma : Sign := ⟨',', false, by decide, nofun⟩

/-- The character, marked if it is a `<`. -/
def marked (x : Sign) : Sign := { x with opens := x.char == '<', angle := beq_iff_eq.mp }

/-- The character without a mark. -/
def unmarked (x : Sign) : Sign := { x with opens := false, angle := nofun }

@[simp] theorem char_marked (x : Sign) : x.marked.char = x.char := rfl

@[simp] theorem opens_marked (x : Sign) : x.marked.opens = (x.char == '<') := rfl

@[simp] theorem char_unmarked (x : Sign) : x.unmarked.char = x.char := rfl

@[simp] theorem opens_unmarked (x : Sign) : x.unmarked.opens = false := rfl

theorem eq_comma {x : Sign} (h : x.char = ',') : x = comma := by
  refine Sign.ext h (Bool.eq_false_iff.mpr fun hopens => ?_)
  exact absurd (h.symm.trans (x.angle hopens)) (by decide)

theorem opens_and (x : Sign) : (x.char == '<' && x.opens) = x.opens := by
  cases hx : x.opens with
  | false => rw [Bool.and_false]
  | true => rw [x.angle hx]; rfl

end Sign

namespace Text

/-- The characters of a text that are not white space. -/
def shapeFrom (previous : Option Char) : Text → List Sign
  | [] => []
  | c :: t =>
    if h : isWhite c = true then shapeFrom (some c) t
    else Sign.after previous c (Bool.eq_false_iff.mpr h) :: shapeFrom (some c) t

def shape (t : Text) : List Sign := shapeFrom none t

/-- For each `<` of a text, whether it stands directly after an identifier. -/
def openings (t : Text) : List Bool := (t.shape.filter fun x => x.char == '<').map Sign.opens

/-- A text of some shape: a no-break space counts as an identifier, a space does not. -/
def ofShape (shape : List Sign) : Text :=
  shape.flatMap fun x => [if x.opens then '\u00a0' else ' ', x.char]

variable {previous : Option Char} {s t : Text}

theorem shapeFrom_congr {previous' : Option Char}
    (h : previous.any isIdentCell = previous'.any isIdentCell) (t : Text) :
    shapeFrom previous t = shapeFrom previous' t := by
  cases t with
  | nil => rfl
  | cons c t => simp only [shapeFrom, Sign.after, h]

/-- After what is no identifier a text has its own shape. -/
theorem shapeFrom_some {c : Char} (h : isIdentCell c = false) (t : Text) :
    shapeFrom (some c) t = shape t :=
  shapeFrom_congr (by simp [h]) t

theorem shapeFrom_append (previous : Option Char) (s t : Text) :
    shapeFrom previous (s ++ t) =
      shapeFrom previous s ++ shapeFrom (s.getLast?.or previous) t := by
  induction s generalizing previous with
  | nil => rfl
  | cons c s ih =>
    have hlast : ((c :: s).getLast?).or previous = s.getLast?.or (some c) := by
      rw [List.getLast?_cons]
      cases s.getLast? <;> rfl
    rw [List.cons_append, shapeFrom, shapeFrom, ih, hlast]
    split <;> rfl

theorem map_char_shapeFrom (previous : Option Char) (t : Text) :
    (shapeFrom previous t).map Sign.char = t.strip := by
  induction t generalizing previous with
  | nil => rfl
  | cons c t ih =>
    rw [shapeFrom]
    split
    next hc => rw [ih, strip_cons_of_white hc]
    next hc => rw [List.map_cons, ih, strip_cons_of_solid (Bool.eq_false_iff.mpr hc), Sign.after]

theorem map_char_shape (t : Text) : t.shape.map Sign.char = t.strip := map_char_shapeFrom none t

theorem strip_eq_of_shape_eq (h : s.shape = t.shape) : s.strip = t.strip := by
  rw [← map_char_shape, h, map_char_shape]

theorem shape_ofShape (shape : List Sign) : (ofShape shape).shape = shape := by
  suffices hfrom : ∀ previous, shapeFrom previous (ofShape shape) = shape from hfrom none
  induction shape with
  | nil => exact fun _ => rfl
  | cons x shape ih =>
    intro previous
    have hwhite : ∀ opens : Bool, isWhite (if opens then '\u00a0' else ' ') = true := by decide
    have hident : ∀ opens : Bool, isIdentCell (if opens then '\u00a0' else ' ') = opens := by
      decide
    have htext : ofShape (x :: shape) =
        (if x.opens then '\u00a0' else ' ') :: x.char :: ofShape shape := rfl
    have hopens : (x.char == '<' &&
        (some (if x.opens then '\u00a0' else ' ')).any isIdentCell) = x.opens := by
      rw [Option.any_some, hident, Sign.opens_and]
    rw [htext, shapeFrom, dif_pos (hwhite _), shapeFrom, dif_neg (Bool.eq_false_iff.mp x.solid), ih]
    exact congrArg (· :: shape) (Sign.ext rfl hopens)

/-- Marks stand only at `<`, so a shape is its characters and its marks. -/
theorem eq_of_map_opens_eq {x y : List Sign} (hchar : x.map Sign.char = y.map Sign.char)
    (hopens : (x.filter fun a => a.char == '<').map Sign.opens =
      (y.filter fun a => a.char == '<').map Sign.opens) : x = y := by
  induction x generalizing y with
  | nil => exact (List.map_eq_nil_iff.mp hchar.symm).symm
  | cons a x ih =>
    cases y with
    | nil => cases hchar
    | cons b y =>
      obtain ⟨hab, hrest⟩ := List.cons.inj hchar
      by_cases hopen : a.char = '<'
      · simp only [List.filter_cons, ← hab, hopen, beq_self_eq_true, if_true, List.map_cons,
          List.cons.injEq] at hopens
        rw [Sign.ext hab hopens.1, ih hrest hopens.2]
      · have hclosed : ∀ c : Sign, c.char = a.char → c.opens = false := fun c hc =>
          Bool.eq_false_iff.mpr fun h => hopen (hc.symm.trans (c.angle h))
        simp only [List.filter_cons, ← hab, beq_eq_false_iff_ne.mpr hopen] at hopens
        rw [Sign.ext hab ((hclosed a rfl).trans (hclosed b hab.symm).symm), ih hrest hopens]

theorem shape_eq_of_openings (hstrip : s.strip = t.strip) (hopenings : s.openings = t.openings) :
    s.shape = t.shape :=
  eq_of_map_opens_eq (by rw [map_char_shape, map_char_shape, hstrip]) hopenings

theorem length_openings (t : Text) : t.openings.length = t.strip.count '<' := by
  rw [openings, List.length_map, ← List.countP_eq_length_filter, ← map_char_shape t, List.count,
    List.countP_map]
  rfl

end Text

namespace Code

/-- The depth of type argument lists after a character, where `opens` says whether a `<` counts. -/
def nextAngles (angles : Nat) (opens : Bool) (c : Char) : Nat :=
  if opens then angles + 1 else if c == '>' then angles - 1 else angles

/-- Cuts a shape as the text is cut, see `commaPiecesFrom`. -/
def shapePiecesFrom (piece : List Sign) (brackets angles : Nat) : List Sign → List (List Sign)
  | [] => [piece.reverse]
  | x :: rest =>
    if x.char == ',' && brackets == 0 && angles == 0 then
      piece.reverse :: shapePiecesFrom [] 0 0 rest
    else
      shapePiecesFrom (x :: piece) (bracketDepth brackets x.char)
        (nextAngles angles x.opens x.char) rest

/-- Whether every comma outside brackets stands outside angle brackets too. Each `<` counts. -/
def openCommas (brackets angles : Nat) : Text → Bool
  | [] => true
  | c :: rest =>
    if c == ',' && brackets == 0 then angles == 0 && openCommas 0 0 rest
    else openCommas (bracketDepth brackets c) (nextAngles angles (c == '<') c) rest

theorem angleDepth_eq (angles : Nat) (previous : Option Char) (c : Char) :
    angleDepth angles previous c = nextAngles angles (c == '<' && previous.any isIdentCell) c := by
  by_cases hopen : c = '<' <;> simp [angleDepth, nextAngles, hopen]

/-- Of the angle brackets that there are, those that count are a part. -/
theorem nextAngles_le {angles all : Nat} (hle : angles ≤ all) (x : Sign) :
    nextAngles angles x.opens x.char ≤ nextAngles all (x.char == '<') x.char := by
  cases hx : x.opens with
  | true =>
    rw [x.angle hx]
    exact Nat.succ_le_succ hle
  | false =>
    rw [nextAngles, nextAngles, if_neg Bool.false_ne_true]
    split <;> split <;> omega

theorem ne_of_isWhite {c : Char} (h : isWhite c = true) :
    c ≠ ',' ∧ c ≠ '<' ∧ c ≠ '>' ∧ ∀ brackets, bracketDepth brackets c = brackets := by
  have hne : ∀ d, isWhite d = false → c ≠ d := by
    rintro d hd rfl
    exact Bool.false_ne_true (hd.symm.trans h)
  refine ⟨hne ',' (by decide), hne '<' (by decide), hne '>' (by decide), fun brackets => ?_⟩
  simp [bracketDepth, hne '(' (by decide), hne '[' (by decide), hne '{' (by decide),
    hne ')' (by decide), hne ']' (by decide), hne '}' (by decide)]

theorem openCommas_strip (brackets angles : Nat) (t : Text) :
    openCommas brackets angles t.strip = openCommas brackets angles t := by
  induction t generalizing brackets angles with
  | nil => rfl
  | cons c t ih =>
    by_cases hc : isWhite c = true
    · obtain ⟨hcomma, hopen, hclose, hbrackets⟩ := ne_of_isWhite hc
      rw [Text.strip_cons_of_white hc, ih, openCommas]
      simp [nextAngles, hcomma, hopen, hclose, hbrackets]
    · rw [Text.strip_cons_of_solid (Bool.eq_false_iff.mpr hc), openCommas, openCommas, ih, ih]

/-- The shapes of the pieces are the pieces of the shape. -/
theorem map_shape_commaPiecesFrom (piece t : Code) (brackets angles : Nat) :
    (commaPiecesFrom piece brackets angles t).map Text.shape =
      shapePiecesFrom (Text.shape piece.reverse).reverse brackets angles
        (Text.shapeFrom piece.head? t) := by
  induction t generalizing piece brackets angles with
  | nil => simp [commaPiecesFrom, Text.shapeFrom, shapePiecesFrom]
  | cons c t ih =>
    have hlast : piece.reverse.getLast?.or none = piece.head? := by
      rw [List.getLast?_reverse, Option.or_none]
    have hpiece : Text.shape (c :: piece).reverse =
        Text.shape piece.reverse ++ Text.shapeFrom piece.head? [c] := by
      rw [List.reverse_cons, Text.shape, Text.shapeFrom_append, hlast]
      rfl
    rw [commaPiecesFrom, Text.shapeFrom]
    split
    next hcut =>
      obtain rfl : c = ',' := by simp_all
      rw [dif_neg (by decide), List.map_cons, ih, shapePiecesFrom, Sign.after, if_pos hcut,
        List.reverse_reverse, Text.shapeFrom_some (by decide)]
      rfl
    next hcut =>
      rw [ih, hpiece, Text.shapeFrom]
      by_cases hc : isWhite c = true
      · obtain ⟨-, hopen, hclose, hbrackets⟩ := ne_of_isWhite hc
        simp [hc, angleDepth, hopen, hclose, hbrackets, Text.shapeFrom]
      · rw [dif_neg hc, dif_neg hc, shapePiecesFrom, Sign.after, if_neg hcut, angleDepth_eq]
        simp [Text.shapeFrom]

theorem map_shape_commaPieces (t : Text) :
    (commaPieces t).map Text.shape = shapePiecesFrom [] 0 0 t.shape :=
  map_shape_commaPiecesFrom [] t 0 0

theorem map_strip_commaPieces (t : Text) :
    (commaPieces t).map Text.strip =
      (shapePiecesFrom [] 0 0 t.shape).map fun p => p.map Sign.char := by
  rw [← map_shape_commaPieces, List.map_map]
  exact List.map_congr_left fun p _ => (Text.map_char_shape p).symm

/-! ### Pieces and the commas between them -/

theorem exists_shapePiecesFrom (piece shape : List Sign) (brackets angles : Nat) :
    ∃ p ps, shapePiecesFrom piece brackets angles shape = p :: ps := by
  induction shape generalizing piece brackets angles with
  | nil => exact ⟨_, _, rfl⟩
  | cons x rest ih =>
    rw [shapePiecesFrom]
    split
    · exact ⟨_, _, rfl⟩
    · exact ih _ _ _

/-- A cut takes away one comma between each two pieces. -/
theorem intercalate_shapePiecesFrom (piece shape : List Sign) (brackets angles : Nat) :
    List.intercalate [.comma] (shapePiecesFrom piece brackets angles shape) =
      piece.reverse ++ shape := by
  induction shape generalizing piece brackets angles with
  | nil => simp [shapePiecesFrom]
  | cons x rest ih =>
    rw [shapePiecesFrom]
    split
    next hcut =>
      obtain rfl : x = .comma := Sign.eq_comma (by simp_all)
      obtain ⟨p, ps, hpieces⟩ := exists_shapePiecesFrom [] rest 0 0
      rw [hpieces, List.intercalate_cons_cons, ← hpieces, ih]
      simp
    next => simpa using ih (x :: piece) _ _

theorem intercalate_shape_commaPieces (t : Text) :
    List.intercalate [.comma] ((commaPieces t).map Text.shape) = t.shape := by
  rw [map_shape_commaPieces, intercalate_shapePiecesFrom]
  rfl

theorem map_char_intercalate (as : List (List Sign)) :
    (List.intercalate [.comma] as).map Sign.char =
      List.intercalate [','] (as.map fun a => a.map Sign.char) := by
  induction as with
  | nil => rfl
  | cons a as ih =>
    cases as with
    | nil => simp
    | cons b as =>
      rw [List.map_cons, List.map_cons, List.intercalate_cons_cons, List.intercalate_cons_cons,
        List.map_append, List.map_append, ih]
      rfl

/-- Pieces of the same characters that join to the same shape are the same. -/
theorem eq_of_intercalate_eq {as bs : List (List Sign)}
    (hchar : as.map (fun p => p.map Sign.char) = bs.map fun p => p.map Sign.char)
    (hjoin : List.intercalate [.comma] as = List.intercalate [.comma] bs) : as = bs := by
  induction as generalizing bs with
  | nil => exact (List.map_eq_nil_iff.mp hchar.symm).symm
  | cons a as ih =>
    cases bs with
    | nil => cases hchar
    | cons b bs =>
      obtain ⟨hab, hrest⟩ := List.cons.inj hchar
      have hlength : a.length = b.length := by simpa using congrArg List.length hab
      cases as with
      | nil =>
        obtain rfl := List.map_eq_nil_iff.mp hrest.symm
        simpa using hjoin
      | cons a' as =>
        cases bs with
        | nil => cases hrest
        | cons b' bs =>
          rw [List.intercalate_cons_cons, List.intercalate_cons_cons, List.append_assoc,
            List.append_assoc] at hjoin
          obtain ⟨rfl, htail⟩ := List.append_inj hjoin hlength
          rw [ih hrest (List.append_cancel_left htail)]

/-! ### Cuts and marks -/

/-- If no comma stands within inner angle brackets, a cut does not depend on the marks. The angle
brackets that count are never more than those there are. -/
theorem map_char_shapePiecesFrom_eq {piece piece' x y : List Sign}
    {brackets angles angles' all : Nat} (hpiece : piece.map Sign.char = piece'.map Sign.char)
    (hxy : x.map Sign.char = y.map Sign.char)
    (hopen : openCommas brackets all (x.map Sign.char) = true) (hle : angles ≤ all)
    (hle' : angles' ≤ all) :
    (shapePiecesFrom piece brackets angles x).map (fun p => p.map Sign.char) =
      (shapePiecesFrom piece' brackets angles' y).map fun p => p.map Sign.char := by
  induction x generalizing piece piece' y brackets angles angles' all with
  | nil =>
    obtain rfl := List.map_eq_nil_iff.mp hxy.symm
    simp [shapePiecesFrom, hpiece]
  | cons a x ih =>
    cases y with
    | nil => cases hxy
    | cons b y =>
      obtain ⟨hab, hrest⟩ := List.cons.inj hxy
      have hnext := nextAngles_le hle a
      have hnext' := nextAngles_le hle' b
      rw [List.map_cons, openCommas] at hopen
      rw [← hab] at hnext'
      rw [shapePiecesFrom, shapePiecesFrom, ← hab]
      split at hopen
      next hcut =>
        obtain ⟨hall, hopen⟩ := Bool.and_eq_true_iff.mp hopen
        obtain rfl : all = 0 := beq_iff_eq.mp hall
        obtain rfl : angles = 0 := Nat.le_zero.mp hle
        obtain rfl : angles' = 0 := Nat.le_zero.mp hle'
        rw [if_pos (by simpa using hcut), if_pos (by simpa using hcut), List.map_cons,
          List.map_cons, ih rfl hrest hopen (Nat.le_refl 0) (Nat.le_refl 0)]
        simp [hpiece]
      next hcut =>
        rw [if_neg (by simp_all), if_neg (by simp_all)]
        exact ih (by simp [hpiece, hab]) hrest hopen hnext hnext'

/-- Where all commas are open, a cut does not change with formatting. -/
theorem map_strip_commaPieces_eq {s t : Text} (hstrip : s.strip = t.strip)
    (hopen : openCommas 0 0 t = true) :
    (commaPieces s).map Text.strip = (commaPieces t).map Text.strip := by
  rw [map_strip_commaPieces, map_strip_commaPieces]
  refine (map_char_shapePiecesFrom_eq rfl ?_ ?_ (Nat.le_refl 0) (Nat.le_refl 0)).symm
  · rw [Text.map_char_shape, Text.map_char_shape, hstrip]
  · rw [Text.map_char_shape, openCommas_strip, hopen]

/-- With every `<` marked there are at most as many pieces as with none, and as many only if all
commas are open. -/
theorem length_shapePiecesFrom_le (piece piece' shape : List Sign) (brackets angles : Nat) :
    (shapePiecesFrom piece brackets angles (shape.map Sign.marked)).length ≤
        (shapePiecesFrom piece' brackets 0 (shape.map Sign.unmarked)).length ∧
      ((shapePiecesFrom piece brackets angles (shape.map Sign.marked)).length =
          (shapePiecesFrom piece' brackets 0 (shape.map Sign.unmarked)).length →
        openCommas brackets angles (shape.map Sign.char) = true) := by
  induction shape generalizing piece piece' brackets angles with
  | nil => simp [shapePiecesFrom, openCommas]
  | cons x shape ih =>
    have hnone : nextAngles 0 false x.char = 0 := by
      rw [nextAngles, if_neg Bool.false_ne_true]
      split <;> rfl
    rw [List.map_cons, List.map_cons, List.map_cons, shapePiecesFrom, shapePiecesFrom, openCommas,
      Sign.char_marked, Sign.opens_marked, Sign.char_unmarked, Sign.opens_unmarked, hnone]
    by_cases hcut : (x.char == ',' && brackets == 0) = true
    · obtain ⟨hcomma, hbrackets⟩ := Bool.and_eq_true_iff.mp hcut
      replace hcomma : x.char = ',' := beq_iff_eq.mp hcomma
      obtain rfl : brackets = 0 := beq_iff_eq.mp hbrackets
      by_cases hangles : angles = 0
      · subst hangles
        simpa [hcomma] using ih [] [] 0 0
      · -- Only the text without marks is cut here.
        obtain ⟨hle, -⟩ := ih (x.marked :: piece) [] 0 angles
        have hbracket : bracketDepth 0 x.char = 0 := by rw [hcomma]; rfl
        have hangle : nextAngles angles (x.char == '<') x.char = angles := by rw [hcomma]; rfl
        rw [if_neg (by simp [hangles]), if_pos (by simp [hcomma]), hbracket, hangle,
          List.length_cons]
        exact ⟨Nat.le_succ_of_le hle, fun heq => absurd hle (by omega)⟩
    · rw [if_neg (by simp_all), if_neg (by simp_all), if_neg hcut]
      exact ih _ _ _ _

end Code

end ClassRefactor
