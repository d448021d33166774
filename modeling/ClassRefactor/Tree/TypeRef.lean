import ClassRefactor.Code.Scan

/-!
# Type references

A type reference such as `Task<List<int>>?` is a name, a list of type arguments and a suffix of
array ranks, nullable marks and pointers. Reading one never fails: a text that has no argument list,
or that begins with a tuple, is kept whole as a name.
-/

namespace ClassRefactor

/-- A possibly generic type as it is written in a declaration. -/
structure TypeRef where
  name : String
  args : List TypeRef := []
  /-- What follows the argument list: array ranks, nullable marks and pointers. -/
  suffix : String := ""
deriving Repr, Inhabited

namespace TypeRef

mutual

def decEq : (a b : TypeRef) → Decidable (a = b)
  | ⟨n, as, s⟩, ⟨m, bs, t⟩ =>
    match instDecidableEqString n m, decEqList as bs, instDecidableEqString s t with
    | isTrue hn, isTrue has, isTrue hs => isTrue (by rw [hn, has, hs])
    | isFalse hn, _, _ => isFalse fun h => hn (TypeRef.mk.inj h).1
    | _, isFalse has, _ => isFalse fun h => has (TypeRef.mk.inj h).2.1
    | _, _, isFalse hs => isFalse fun h => hs (TypeRef.mk.inj h).2.2

def decEqList : (as bs : List TypeRef) → Decidable (as = bs)
  | [], [] => isTrue rfl
  | [], _ :: _ => isFalse nofun
  | _ :: _, [] => isFalse nofun
  | a :: as, b :: bs =>
    match decEq a b, decEqList as bs with
    | isTrue h, isTrue hs => isTrue (by rw [h, hs])
    | isFalse h, _ => isFalse fun e => h (List.cons.inj e).1
    | _, isFalse hs => isFalse fun e => hs (List.cons.inj e).2

end

instance : DecidableEq TypeRef := decEq

/-- The type of a method that returns nothing. -/
def void : TypeRef := ⟨"void", [], ""⟩

def isVoid (t : TypeRef) : Bool := t.name == "void" && t.args.isEmpty && t.suffix.isEmpty

/-- What precedes the first occurrence of a mark; the whole text if there is none. -/
def beforeMark (mark : Text) : Text → Text
  | [] => []
  | c :: t => if mark.isPrefixOf (c :: t) then [] else c :: beforeMark mark t

/-- What follows the last occurrence of a mark; the whole text if there is none. -/
def afterLast (mark t : Text) : Text := (beforeMark mark.reverse t.reverse).reverse

/-- The last segment of a qualified name: `Task` for `System.Threading.Tasks.Task`. -/
def simpleName (t : TypeRef) : String :=
  .ofList (afterLast ".".toList (afterLast "::".toList t.name.toList))

mutual

/-- The type as source text. -/
def render : TypeRef → String
  | ⟨name, args, suffix⟩ =>
    name ++ (if args.isEmpty then "" else "<" ++ renderArgs args ++ ">") ++ suffix

/-- Type arguments with a comma and a space between each two. -/
def renderArgs : List TypeRef → String
  | [] => ""
  | [t] => render t
  | t :: u :: rest => render t ++ ", " ++ renderArgs (u :: rest)

end

/-- A text cut around its first type argument list: what precedes it, what its angle brackets
enclose, and what follows. -/
def splitArguments? (t : Text) : Option (Text × Text × Text) :=
  match t.dropWhile (· != '<') with
  | [] => none
  | _ :: rest =>
    (Code.closeFrom '<' '>' 0 rest).map fun n =>
      (t.takeWhile (· != '<'), rest.take n, rest.drop (n + 1))

theorem length_lt_of_splitArguments? {t name inner suffix : Text}
    (h : splitArguments? t = some (name, inner, suffix)) : inner.length < t.length := by
  unfold splitArguments? at h
  split at h
  · simp at h
  · rename_i c rest heq
    simp only [Option.map_eq_some_iff, Prod.mk.injEq] at h
    obtain ⟨n, hn, rfl, rfl, rfl⟩ := h
    have hlen := congrArg List.length heq
    have hle := (List.dropWhile_suffix (· != '<') (l := t)).length_le
    simp only [List.length_cons, List.length_take] at hlen ⊢
    omega

theorem length_le_of_mem_commaPiecesFrom {piece code p : Code} {brackets angles : Nat}
    (h : p ∈ Code.commaPiecesFrom piece brackets angles code) :
    p.length ≤ piece.length + code.length := by
  induction code generalizing piece brackets angles with
  | nil => simp_all [Code.commaPiecesFrom]
  | cons c rest ih =>
    simp only [Code.commaPiecesFrom] at h
    split at h
    · rcases List.mem_cons.mp h with rfl | h
      · simp
      · have := ih h
        simp only [List.length_nil, List.length_cons] at this ⊢
        omega
    · have := ih h
      simp only [List.length_cons] at this ⊢
      omega

theorem length_trim_le (t : Text) : t.trim.length ≤ t.length := by
  have hs := (List.dropWhile_suffix isWhite (l := t)).length_le
  have he := (List.dropWhile_suffix isWhite (l := t.trimStart.reverse)).length_le
  simp only [List.length_reverse] at he
  simp only [Text.trim, Text.trimEnd, List.length_reverse]
  exact Nat.le_trans he hs

/-- Reads a type from source text. White space is dropped, except that a tuple keeps one space
between its words. -/
def parse (t : Text) : TypeRef :=
  if t.trim.head? == some '(' then ⟨.ofList t.trim.compact, [], ""⟩
  else
    match _h : splitArguments? t.trim with
    | none => ⟨.ofList t.trim.strip, [], ""⟩
    | some (name, inner, suffix) =>
      ⟨.ofList name.strip, (Code.commaPieces inner).attach.map fun p => parse p.1,
        .ofList suffix.strip⟩
termination_by t.length
decreasing_by
  have hpiece := length_le_of_mem_commaPiecesFrom p.2
  have hinner := length_lt_of_splitArguments? _h
  have htrim := length_trim_le t
  simp only [List.length_nil] at hpiece
  omega

end TypeRef

end ClassRefactor
