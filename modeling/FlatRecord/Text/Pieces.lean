/-!
# Cutting text at separators

`pieces` cuts a text at every character of a class and keeps what lies
between the cuts, empty pieces included. Lines, words and the components of a
path are all read off it: they differ in the class and in which pieces they
drop. `scopes` is the one cut that is made at a pair of characters, the `::`
between nested namespaces.
-/

namespace FlatRecord.Text

/-- Puts a character in front of the first piece. -/
def consFirst (c : Char) : List (List Char) → List (List Char)
  | [] => [[c]]
  | p :: ps => (c :: p) :: ps

/-- The pieces of a text between the characters that `cut` accepts. There is
always at least one. -/
def pieces (cut : Char → Bool) : List Char → List (List Char)
  | [] => [[]]
  | c :: cs => if cut c then [] :: pieces cut cs else consFirst c (pieces cut cs)

/-- The pieces of a text between its `::`, found from the left, so that
`a:::b` has the pieces `a` and `:b`. -/
def scopes : List Char → List (List Char)
  | [] => [[]]
  | ':' :: ':' :: cs => [] :: scopes cs
  | c :: cs => consFirst c (scopes cs)

theorem pieces_ne_nil (cut : Char → Bool) (cs : List Char) : pieces cut cs ≠ [] := by
  cases cs with
  | nil => simp [pieces]
  | cons c cs =>
    unfold pieces
    split
    · simp
    · cases pieces cut cs <;> simp [consFirst]

/-- A text without separators is its own only piece. -/
theorem pieces_eq_singleton {cut : Char → Bool} {cs : List Char}
    (h : ∀ c ∈ cs, cut c = false) : pieces cut cs = [cs] := by
  induction cs with
  | nil => rfl
  | cons c cs ih =>
    have hc : cut c = false := h c (by simp)
    have hcs := ih (fun d hd => h d (by simp [hd]))
    simp [pieces, hc, hcs, consFirst]

/-- The pieces on either side of a separator are the pieces of either side. -/
theorem pieces_append_cons {cut : Char → Bool} {s : Char} (hs : cut s = true)
    (before after : List Char) :
    pieces cut (before ++ s :: after) = pieces cut before ++ pieces cut after := by
  induction before with
  | nil => simp [pieces, hs]
  | cons c before ih =>
    by_cases hc : cut c = true
    · simp [pieces, hc, ih]
    · obtain ⟨p, ps, hp⟩ := List.exists_cons_of_ne_nil (pieces_ne_nil cut before)
      simp [pieces, hc, ih, hp, consFirst]

/-- There is one piece more than there are separators. -/
theorem length_pieces (cut : Char → Bool) (cs : List Char) :
    (pieces cut cs).length = cs.countP cut + 1 := by
  have hfirst : ∀ (c : Char) {ps : List (List Char)}, ps ≠ [] →
      (consFirst c ps).length = ps.length := by
    intro c ps hps
    obtain ⟨p, ps, rfl⟩ := List.exists_cons_of_ne_nil hps
    rfl
  induction cs with
  | nil => rfl
  | cons c cs ih =>
    by_cases hc : cut c = true
    · rw [pieces, if_pos hc, List.length_cons, ih, List.countP_cons_of_pos hc]
    · rw [pieces, if_neg hc, hfirst c (pieces_ne_nil cut cs), ih, List.countP_cons_of_neg hc]

/-- No piece holds a separator. -/
theorem not_cut_of_mem_pieces {cut : Char → Bool} {cs p : List Char}
    (hp : p ∈ pieces cut cs) : ∀ c ∈ p, cut c = false := by
  induction cs generalizing p with
  | nil =>
    obtain rfl : p = [] := by simpa [pieces] using hp
    simp
  | cons d ds ih =>
    by_cases hd : cut d = true
    · rcases List.mem_cons.1 (by simpa [pieces, hd] using hp) with rfl | hp
      · simp
      · exact ih hp
    · obtain ⟨q, qs, hq⟩ := List.exists_cons_of_ne_nil (pieces_ne_nil cut ds)
      rw [hq] at ih
      rcases List.mem_cons.1 (by simpa [pieces, hd, hq, consFirst] using hp) with rfl | hp
      · intro c hc
        rcases List.mem_cons.1 hc with rfl | hc
        · simpa using hd
        · exact ih (List.mem_cons_self ..) c hc
      · exact ih (List.mem_cons_of_mem _ hp)

/-- The first piece is what the text begins with. -/
theorem prefix_of_head?_pieces {cut : Char → Bool} {cs p : List Char}
    (hp : (pieces cut cs).head? = some p) : p <+: cs := by
  induction cs generalizing p with
  | nil =>
    obtain rfl : [] = p := by simpa [pieces] using hp
    exact List.nil_prefix
  | cons d ds ih =>
    by_cases hd : cut d = true
    · obtain rfl : [] = p := by simpa [pieces, hd] using hp
      exact List.nil_prefix
    · obtain ⟨q, qs, hq⟩ := List.exists_cons_of_ne_nil (pieces_ne_nil cut ds)
      obtain rfl : d :: q = p := by simpa [pieces, hd, hq, consFirst] using hp
      exact List.cons_prefix_cons.2 ⟨rfl, ih (by rw [hq]; rfl)⟩

/-- A piece stands in the text. -/
theorem infix_of_mem_pieces {cut : Char → Bool} {cs p : List Char}
    (hp : p ∈ pieces cut cs) : p <:+: cs := by
  induction cs generalizing p with
  | nil =>
    obtain rfl : p = [] := by simpa [pieces] using hp
    exact List.nil_infix
  | cons d ds ih =>
    by_cases hd : cut d = true
    · rcases List.mem_cons.1 (by simpa [pieces, hd] using hp) with rfl | hp
      · exact List.nil_infix
      · exact (ih hp).trans (List.suffix_cons d ds).isInfix
    · obtain ⟨q, qs, hq⟩ := List.exists_cons_of_ne_nil (pieces_ne_nil cut ds)
      rcases List.mem_cons.1 (by simpa [pieces, hd, hq, consFirst] using hp) with rfl | hp
      · refine (@prefix_of_head?_pieces cut (d :: ds) _ ?_).isInfix
        simp [pieces, hd, hq, consFirst]
      · exact (ih (hq ▸ List.mem_cons_of_mem _ hp)).trans (List.suffix_cons d ds).isInfix

/-- A character that is no separator is in a piece. -/
theorem exists_mem_pieces {cut : Char → Bool} {cs : List Char} {c : Char} (hc : c ∈ cs)
    (h : cut c = false) : ∃ p ∈ pieces cut cs, c ∈ p := by
  induction cs with
  | nil => cases hc
  | cons d ds ih =>
    unfold pieces
    split
    · rename_i hd
      have hne : c ≠ d := fun heq => by simp [heq ▸ h] at hd
      obtain ⟨p, hp, hmem⟩ := ih ((List.mem_cons.1 hc).resolve_left hne)
      exact ⟨p, List.mem_cons_of_mem _ hp, hmem⟩
    · obtain ⟨q, qs, hq⟩ := List.exists_cons_of_ne_nil (pieces_ne_nil cut ds)
      rw [hq] at ih ⊢
      rcases List.mem_cons.1 hc with rfl | hc
      · exact ⟨c :: q, List.mem_cons_self, List.mem_cons_self⟩
      · obtain ⟨p, hp, hmem⟩ := ih hc
        rcases List.mem_cons.1 hp with rfl | hp
        · exact ⟨d :: p, List.mem_cons_self, List.mem_cons_of_mem _ hmem⟩
        · exact ⟨p, List.mem_cons_of_mem _ hp, hmem⟩

end FlatRecord.Text
