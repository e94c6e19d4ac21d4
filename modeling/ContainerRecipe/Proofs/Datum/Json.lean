import ContainerRecipe.Datum.Json
import ContainerRecipe.Datum.Json.Reader
import ContainerRecipe.Proofs.Text.Parts

namespace ContainerRecipe.Json

section

theorem hexValue?_hexDigit : ∀ n < 16, hexValue? (hexDigit n) = some n := by decide

-- Every character is a code unit of its own.
theorem joinUnits_map_toNat (cs : List Char) : joinUnits (cs.map Char.toNat) = some cs := by
  induction cs with
  | nil => rfl
  | cons c rest ih =>
    have valid : c.toNat < 0xD800 ∨ 0xDFFF < c.toNat ∧ c.toNat < 0x110000 := c.valid
    have notHigh : (decide (0xD800 ≤ c.toNat) && decide (c.toNat < 0xDC00)) = false := by
      simp only [Bool.and_eq_false_iff, decide_eq_false_iff_not]
      omega
    have notLow : (decide (0xDC00 ≤ c.toNat) && decide (c.toNat < 0xE000)) = false := by
      simp only [Bool.and_eq_false_iff, decide_eq_false_iff_not]
      omega
    rw [List.map_cons]
    unfold joinUnits
    simp [notHigh, notLow, ih]

-- No character of a string breaks the line.
theorem newline_not_mem_quote (s : String) : '\n' ∉ (quote s).toList := by
  have digits : ∀ n < 16, '\n' ≠ hexDigit n := by decide
  have escaped : ∀ c, '\n' ∉ escapeChar c := by
    intro c
    unfold escapeChar
    iterate 7
      split
      · decide
    split
    · have high := digits (c.toNat / 16) (by omega)
      have low := digits (c.toNat % 16) (by omega)
      simp [high, low]
    · rename_i newline _ _ _ _ _
      simpa using Ne.symm newline
  simp [quote, quoteChars, escaped]

variable (read : List Nat) (tokens : List Token)

-- A character outside of the short escapes is read as it stands, or by its code.
theorem foldlM_escapeChar (c : Char) : (escapeChar c).foldlM Scan.step ⟨.text read, tokens⟩ =
    some ⟨.text (c.toNat :: read), tokens⟩ := by
  unfold escapeChar
  iterate 7
    split
    · subst_vars
      rfl
  split
  · rename_i control
    have high := hexValue?_hexDigit (c.toNat / 16) (by omega)
    have low := hexValue?_hexDigit (c.toNat % 16) (by omega)
    have zero : hexValue? '0' = some 0 := by decide
    simp [Scan.step, zero, high, low, Nat.div_add_mod]
  · rename_i quote backslash _ _ _ _ _ control
    simp [Scan.step, quote, backslash, control]

theorem foldlM_escaped (cs : List Char) : (cs.flatMap escapeChar).foldlM Scan.step ⟨.text read, tokens⟩ =
    some ⟨.text ((cs.map Char.toNat).reverse ++ read), tokens⟩ := by
  induction cs generalizing read with
  | nil => rfl
  | cons c rest ih =>
    rw [List.flatMap_cons, List.foldlM_append, foldlM_escapeChar]
    simp [ih]

theorem foldlM_quoteChars (cs : List Char) : (quoteChars cs).foldlM Scan.step ⟨.nothing, tokens⟩ =
    some ⟨.nothing, .text (String.ofList cs) :: tokens⟩ := by
  have opened : Scan.step ⟨.nothing, tokens⟩ '"' = some ⟨.text [], tokens⟩ := rfl
  have closed : Scan.step ⟨.text (cs.map Char.toNat).reverse, tokens⟩ '"' =
      some ⟨.nothing, .text (String.ofList cs) :: tokens⟩ := by
    simp [Scan.step, joinUnits_map_toNat, Scan.emit]
  rw [quoteChars, List.cons_append, List.foldlM_cons, opened]
  simp [List.foldlM_append, foldlM_escaped, closed]

end

section

-- An array on one line.
def array (texts : List String) : String := "[" ++ ", ".intercalate (texts.map quote) ++ "]"

theorem newline_not_mem_array (texts : List String) : '\n' ∉ (array texts).toList := by
  have inside : '\n' ∉ (", ".intercalate (texts.map quote)).toList := by
    refine Text.not_mem_intercalate (by decide) fun part member => ?_
    obtain ⟨s, -, rfl⟩ := List.mem_map.mp member
    exact newline_not_mem_quote s
  simp only [array, String.toList_append, List.mem_append, not_or]
  exact ⟨⟨by decide, inside⟩, by decide⟩

-- The tokens between the brackets of an array.
def arrayTokens (texts : List String) : List Token := (texts.map Token.text).intersperse .comma

theorem foldlM_intercalate (texts : List String) (tokens : List Token) :
    ([',', ' '].intercalate (texts.map fun s => quoteChars s.toList)).foldlM Scan.step ⟨.nothing, tokens⟩ =
      some ⟨.nothing, (arrayTokens texts).reverse ++ tokens⟩ := by
  induction texts generalizing tokens with
  | nil => rfl
  | cons s rest ih =>
    cases rest with
    | nil => simp [arrayTokens, foldlM_quoteChars]
    | cons next rest =>
      have separated : [',', ' '].foldlM Scan.step ⟨.nothing, .text s :: tokens⟩ =
          some ⟨.nothing, .comma :: .text s :: tokens⟩ := rfl
      have later := ih (.comma :: .text s :: tokens)
      have order : (arrayTokens (s :: next :: rest)).reverse ++ tokens =
          (arrayTokens (next :: rest)).reverse ++ .comma :: .text s :: tokens := by simp [arrayTokens]
      rw [List.map_cons] at later ⊢
      rw [List.map_cons, List.intercalate_cons_cons, List.append_assoc, List.foldlM_append,
        foldlM_quoteChars, String.ofList_toList, Option.bind_eq_bind, Option.bind_some,
        List.foldlM_append, separated, Option.bind_eq_bind, Option.bind_some, later, order]

theorem tokens?_array (texts : List String) :
    tokens? (array texts) = some (.openList :: arrayTokens texts ++ [.closeList]) := by
  have spelled : (array texts).toList =
      '[' :: ([',', ' '].intercalate (texts.map fun s => quoteChars s.toList)) ++ [']'] := by
    simp [array, quote, String.toList_intercalate, Function.comp_def]
  have opened : Scan.step {} '[' = some ⟨.nothing, [.openList]⟩ := rfl
  rw [tokens?, spelled, List.cons_append, List.foldlM_cons, opened]
  simp [List.foldlM_append, foldlM_intercalate, Scan.step, Scan.start, Scan.isSpace, Scan.mark?, Scan.emit,
    Scan.finish?]

theorem items?_arrayTokens {texts : List String} (given : texts ≠ []) (bound : Nat) (rest : List Token)
    (enough : texts.length < bound) : items? bound (arrayTokens texts ++ .closeList :: rest) =
      some (texts.map .text, rest) := by
  induction texts generalizing bound with
  | nil => exact absurd rfl given
  | cons s more ih =>
    obtain ⟨bound, rfl⟩ := Nat.exists_eq_add_of_le' (Nat.lt_of_le_of_lt (Nat.le_add_left 1 more.length) enough)
    have one : ∀ tokens, value? (bound + 1) (.text s :: tokens) = some (.text s, tokens) := fun _ => rfl
    cases more with
    | nil => simp [arrayTokens, items?, one]
    | cons next more =>
      have others := ih (List.cons_ne_nil _ _) (bound + 1) (by simpa using enough)
      have shape : arrayTokens (s :: next :: more) = .text s :: .comma :: arrayTokens (next :: more) := rfl
      rw [shape, List.cons_append, List.cons_append, items?, one]
      simp [others]

theorem value?_arrayTokens (texts : List String) (bound : Nat) (enough : texts.length < bound) :
    value? (bound + 1) (.openList :: arrayTokens texts ++ [.closeList]) =
      some (.list (texts.map .text), []) := by
  cases texts with
  | nil => rfl
  | cons s more =>
    have items := items?_arrayTokens (List.cons_ne_nil s more) bound [] enough
    obtain ⟨tail, starts⟩ : ∃ tail, arrayTokens (s :: more) = .text s :: tail := by
      cases more <;> exact ⟨_, rfl⟩
    rw [starts] at items ⊢
    have inside : value? (bound + 1) (.openList :: .text s :: tail ++ [.closeList]) =
      (items? bound (.text s :: tail ++ [.closeList])).map fun result => (.list result.1, result.2) := rfl
    rw [inside, items]
    rfl

theorem read?_array (texts : List String) : read? (array texts) = some (.list (texts.map .text)) := by
  have several : texts.length ≤ (arrayTokens texts).length := by
    rw [arrayTokens, List.length_intersperse, List.length_map]
    omega
  have value := value?_arrayTokens texts (2 * (arrayTokens texts).length + 3) (by omega)
  have bound : 2 * (Token.openList :: arrayTokens texts ++ [Token.closeList]).length =
      2 * (arrayTokens texts).length + 3 + 1 := by
    simp only [List.length_append, List.length_cons, List.length_nil]
    omega
  simp only [read?, tokens?_array, Option.bind_eq_bind, Option.bind_some, bound, value]

theorem array_injective : Function.Injective array := by
  intro a b same
  have read := congrArg read? same
  rw [read?_array, read?_array, Option.some.injEq, Datum.list.injEq] at read
  exact List.map_inj_right (fun _ _ => Datum.text.inj) |>.mp read

end

end ContainerRecipe.Json
