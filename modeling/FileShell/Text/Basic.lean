/-!
# Text

A text is the list of its characters. Splitting it where a test holds gives the pieces between
those characters, one more than there are of them; the fields are the pieces that hold anything.
The main statements say that joining the pieces with the character they were split at gives the
text back, that no piece holds that character, and that pieces without it are found again when
they are joined by it.
-/

namespace FileShell

abbrev Text := List Char

namespace Text

/-- The pieces between the characters that pass the test, the empty ones included. -/
def split (p : Char → Bool) : Text → List Text
  | [] => [[]]
  | c :: t =>
    if p c then [] :: split p t
    else match split p t with
      | [] => [[c]]
      | x :: xs => (c :: x) :: xs

/-- The maximal runs of characters that fail the test. -/
def fields (p : Char → Bool) (t : Text) : List Text :=
  (split p t).filter (!·.isEmpty)

/-- The texts one after the other, with a separator between neighbours. -/
def join (sep : Text) : List Text → Text
  | [] => []
  | [x] => x
  | x :: y :: r => x ++ sep ++ join sep (y :: r)

def trimStart (p : Char → Bool) (t : Text) : Text := t.dropWhile p

def trimEnd (p : Char → Bool) (t : Text) : Text := (t.reverse.dropWhile p).reverse

def trim (p : Char → Bool) (t : Text) : Text := trimEnd p (trimStart p t)

/-- The text around the first occurrence of a word, if there is one. -/
def cut? (word : Text) : Text → Option (Text × Text)
  | [] => if word.isEmpty then some ([], []) else none
  | c :: t =>
    if word.isPrefixOf (c :: t) then some ([], (c :: t).drop word.length)
    else (cut? word t).map fun (a, b) => (c :: a, b)

theorem split_ne_nil (p : Char → Bool) : ∀ t : Text, split p t ≠ []
  | [] => by simp [split]
  | c :: t => by
    unfold split; split
    · simp
    · split <;> simp

theorem join_cons_of_ne_nil (sep x : Text) {xs : List Text} (h : xs ≠ []) :
    join sep (x :: xs) = x ++ sep ++ join sep xs := by
  cases xs with
  | nil => exact absurd rfl h
  | cons y r => rfl

/-- No piece holds a character that the text was split at. -/
theorem not_of_mem_split {p : Char → Bool} :
    ∀ {t x : Text} {c : Char}, x ∈ split p t → c ∈ x → p c = false
  | [], x, c, hx, hc => by simp [split] at hx; simp [hx] at hc
  | d :: t, x, c, hx, hc => by
    unfold split at hx
    split at hx
    · rcases List.mem_cons.1 hx with rfl | hx
      · simp at hc
      · exact not_of_mem_split hx hc
    · rename_i hd
      split at hx
      · rename_i h; exact absurd h (split_ne_nil p t)
      · rename_i y ys h
        rcases List.mem_cons.1 hx with rfl | hx
        · rcases List.mem_cons.1 hc with rfl | hc
          · simpa using hd
          · exact not_of_mem_split (h ▸ List.mem_cons_self) hc
        · exact not_of_mem_split (h ▸ List.mem_cons_of_mem _ hx) hc

theorem join_split (s : Char) : ∀ t : Text, join [s] (split (· == s) t) = t
  | [] => rfl
  | c :: t => by
    have ih := join_split s t
    unfold split
    split
    · rename_i h
      rw [join_cons_of_ne_nil _ _ (split_ne_nil _ t), ih]
      simpa using (beq_iff_eq.1 h).symm
    · split
      · rename_i h; exact absurd h (split_ne_nil _ t)
      · rename_i x xs h
        rw [h] at ih
        cases xs with
        | nil => simpa [join] using ih
        | cons y r => simpa [join] using ih

theorem split_of_forall {p : Char → Bool} : ∀ {x : Text}, (∀ c ∈ x, p c = false) → split p x = [x]
  | [], _ => rfl
  | c :: x, h => by
    have ih := split_of_forall fun d hd => h d (List.mem_cons_of_mem c hd)
    simp [split, h c List.mem_cons_self, ih]

/-- A piece ends at the first character that passes the test. -/
theorem split_append_cons {p : Char → Bool} {s : Char} (hs : p s = true) (t : Text) :
    ∀ {x : Text}, (∀ c ∈ x, p c = false) → split p (x ++ s :: t) = x :: split p t
  | [], _ => by simp [split, hs]
  | c :: x, h => by
    have ih := split_append_cons hs t fun d hd => h d (List.mem_cons_of_mem c hd)
    simp [split, h c List.mem_cons_self, ih]

/-- Joined pieces are found again if none holds the separator. -/
theorem split_join (s : Char) : ∀ {xs : List Text}, xs ≠ [] → (∀ x ∈ xs, s ∉ x) →
    split (· == s) (join [s] xs) = xs
  | [], h, _ => absurd rfl h
  | [x], _, h => split_of_forall fun c hc => beq_false_of_ne fun e =>
      h x List.mem_cons_self (e ▸ hc)
  | x :: y :: r, _, h => by
    have ih := split_join s (List.cons_ne_nil y r) fun z hz => h z (List.mem_cons_of_mem x hz)
    have hx : ∀ c ∈ x, (c == s) = false := fun c hc => beq_false_of_ne fun e =>
      h x List.mem_cons_self (e ▸ hc)
    simpa [join, ih] using
      split_append_cons (p := (· == s)) (beq_self_eq_true s) (join [s] (y :: r)) hx

theorem fields_ne_nil {p : Char → Bool} {t x : Text} (h : x ∈ fields p t) : x ≠ [] := by
  have := (List.mem_filter.1 h).2
  intro hx
  simp [hx] at this

end Text

end FileShell
