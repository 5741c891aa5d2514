import MicroEngine.Json.Token
/-!
# Scanning printed values

A printed value is scanned into its tokens, whatever stands between the tokens and whatever follows.
Only a number has to be followed by something at which it ends.

* `scan`: the tokens of a text that stands behind other tokens.
* `Delimited`: texts at which a number ends.
* `scan_decimal`, `scan_quote`: a printed number and a printed string.
* `toTokens`: the tokens of a value.
* **`scan_render`**: a printed value is scanned into its tokens.
-/

namespace MicroEngine.Json

/-- The tokens of a text that stands behind the tokens `done`, which are in reverse. -/
def scan (done : List Token) (cs : List Char) : Option (List Token) :=
  (cs.foldlM Scanner.step ⟨.between, done⟩).bind Scanner.finish?

theorem tokens?_eq_scan (cs : List Char) : tokens? cs = scan [] cs := rfl

theorem scan_nil (done : List Token) : scan done [] = some done.reverse := rfl

variable {done : List Token} {rest : List Char}

/-- A text that leads from between two tokens to between two tokens. -/
theorem scan_append {cs : List Char} {done' : List Token}
    (h : cs.foldlM Scanner.step ⟨.between, done⟩ = some ⟨.between, done'⟩) :
    scan done (cs ++ rest) = scan done' rest := by
  unfold scan
  rw [List.foldlM_append, h]
  rfl

theorem scan_blanks {b : List Char} (h : ∀ c ∈ b, Scanner.isBlank c = true) :
    scan done (b ++ rest) = scan done rest := by
  apply scan_append
  induction b with
  | nil => rfl
  | cons c b ih =>
    obtain ⟨hc, hb⟩ := List.forall_mem_cons.mp h
    have hstep : Scanner.step ⟨.between, done⟩ c = some ⟨.between, done⟩ := if_pos hc
    rw [List.foldlM_cons, hstep]
    exact ih hb

theorem scan_punctuation {c : Char} {t : Token} (h : Scanner.punctuation? c = some t) :
    scan done (c :: rest) = scan (t :: done) rest := by
  have hblank : Scanner.isBlank c = false := by
    unfold Scanner.punctuation? at h
    split at h <;> first | rfl | cases h
  have hstep : Scanner.step ⟨.between, done⟩ c = some ⟨.between, t :: done⟩ := by
    unfold Scanner.step Scanner.stepBetween
    simp [hblank, h]
  unfold scan
  rw [List.foldlM_cons, hstep]
  rfl

/-! ## Numbers -/

/-- Whether a character may follow a number: a blank, a comma or a closing bracket. -/
def isDelimiter (c : Char) : Bool := Scanner.isBlank c || c = ',' || c = ']' || c = '\x7d'

/-- A text at which a number ends. -/
def Delimited : List Char → Prop
  | [] => True
  | c :: _ => isDelimiter c = true

theorem next?_of_isDelimiter (s : NumberState) {c : Char} (h : isDelimiter c = true) :
    s.next? c = none := by
  have hc : c = ' ' ∨ c = '\n' ∨ c = '\t' ∨ c = '\r' ∨ c = ',' ∨ c = ']' ∨ c = '\x7d' := by
    simpa [isDelimiter, Scanner.isBlank, or_assoc] using h
  rcases hc with rfl | rfl | rfl | rfl | rfl | rfl | rfl <;> cases s <;> rfl

/-- A text that leads into a number which may end there. -/
theorem scan_number {cs : List Char} {s : NumberState} {t : Token}
    (h : cs.foldlM Scanner.step ⟨.between, done⟩ = some ⟨.number s, done⟩)
    (ht : s.token? = some t) (hrest : Delimited rest) :
    scan done (cs ++ rest) = scan (t :: done) rest := by
  unfold scan
  rw [List.foldlM_append, h]
  cases rest with
  | nil =>
    have hfinish : Scanner.finish? ⟨.number s, done⟩ = some (t :: done).reverse := by
      simp [Scanner.finish?, ht]
    exact hfinish
  | cons c rest =>
    have hstep : Scanner.step ⟨.number s, done⟩ c = Scanner.step ⟨.between, t :: done⟩ c := by
      simp only [Scanner.step, next?_of_isDelimiter s hrest, ht]
      rfl
    simp only [Option.bind_eq_bind, Option.bind_some, List.foldlM_cons, hstep]

/-- The digits of a number lead into the number. -/
theorem foldlM_digits (done : List Token) {n : Nat} (hn : 0 < n) :
    (Nat.toDigits 10 n).foldlM Scanner.step ⟨.between, done⟩ =
      some ⟨.number (.whole false n), done⟩ := by
  have hopening : ∀ d < 10, 0 < d → Scanner.isBlank (Nat.digitChar d) = false ∧
      Scanner.punctuation? (Nat.digitChar d) = none ∧
      Scanner.opening? (Nat.digitChar d) = some (.number (.whole false d)) := by
    decide
  have hdigit : ∀ d < 10, isDigit (Nat.digitChar d) = true ∧ digitValue (Nat.digitChar d) = d := by
    decide
  induction n using Nat.strongRecOn with
  | ind n ih =>
    by_cases hlt : n < 10
    · obtain ⟨hblank, hpunctuation, hmode⟩ := hopening n hlt hn
      rw [Nat.toDigits_of_lt_base hlt]
      simp [Scanner.step, Scanner.stepBetween, hblank, hpunctuation, hmode]
    · have hmod : n % 10 < 10 := Nat.mod_lt n (by decide)
      obtain ⟨hisDigit, hvalue⟩ := hdigit (n % 10) hmod
      have hback : 10 * (n / 10) + n % 10 = n := Nat.div_add_mod n 10
      have hsplit := Nat.toDigits_append_toDigits (b := 10) (n := n / 10) (d := n % 10) (by decide)
        (by omega) hmod
      rw [hback, Nat.toDigits_of_lt_base hmod] at hsplit
      rw [← hsplit, List.foldlM_append, ih (n / 10) (by omega) (by omega)]
      simp [Scanner.step, NumberState.next?, hisDigit, hvalue, hback]

theorem scan_decimal (n : Nat) (hrest : Delimited rest) :
    scan done ((Text.decimal n).toList ++ rest) = scan (.number (some n) :: done) rest := by
  unfold Text.decimal
  rw [String.toList_ofList]
  cases n with
  | zero => exact scan_number (s := .zero false) (by rfl) rfl hrest
  | succ n => exact scan_number (foldlM_digits done (Nat.succ_pos n)) rfl hrest

/-! ## Strings -/

theorem hexValue?_hexDigit : ∀ n < 16, hexValue? (hexDigit n) = some n := by decide

/-- A character stands in a string as a letter after a backslash, as a number or as itself. -/
theorem escape_cases (c : Char) :
    (∃ d, d ≠ 'u' ∧ escapeCode? d = some c.toNat ∧ escape c = ['\\', d]) ∨
    (c.toNat < 0x20 ∧
      escape c = ['\\', 'u', '0', '0', hexDigit (c.toNat / 16), hexDigit (c.toNat % 16)]) ∨
    (c ≠ '"' ∧ c ≠ '\\' ∧ ¬ c.toNat < 0x20 ∧ escape c = [c]) := by
  unfold escape
  split
  · next h => exact .inl ⟨'"', by decide, by rw [h]; rfl, rfl⟩
  split
  · next h => exact .inl ⟨'\\', by decide, by rw [h]; rfl, rfl⟩
  split
  · next h => exact .inl ⟨'n', by decide, by rw [h]; rfl, rfl⟩
  split
  · next h => exact .inl ⟨'r', by decide, by rw [h]; rfl, rfl⟩
  split
  · next h => exact .inl ⟨'t', by decide, by rw [h]; rfl, rfl⟩
  split
  · next h => exact .inl ⟨'b', by decide, by rw [h]; rfl, rfl⟩
  split
  · next h => exact .inl ⟨'f', by decide, by rw [h]; rfl, rfl⟩
  split
  · next h => exact .inr (.inl ⟨h, rfl⟩)
  · next hquote hslash _ _ _ _ _ hcontrol => exact .inr (.inr ⟨hquote, hslash, hcontrol, rfl⟩)

/-- A character is read back from its escape. -/
theorem foldlM_escape (units : List Nat) (done : List Token) (c : Char) :
    (escape c).foldlM Scanner.step ⟨.string units, done⟩ =
      some ⟨.string (c.toNat :: units), done⟩ := by
  rcases escape_cases c with ⟨d, hu, hcode, h⟩ | ⟨hcontrol, h⟩ | ⟨hquote, hslash, hcontrol, h⟩
  · have hescape : Scanner.step ⟨.string units, done⟩ '\\' = some ⟨.escape units, done⟩ := rfl
    have hletter : Scanner.step ⟨.escape units, done⟩ d =
        some ⟨.string (c.toNat :: units), done⟩ := by
      simp [Scanner.step, Scanner.stepEscape, hu, hcode]
    rw [h, List.foldlM_cons, hescape, Option.bind_eq_bind, Option.bind_some, List.foldlM_cons,
      hletter]
    rfl
  · have hzeros : ['\\', 'u', '0', '0'].foldlM Scanner.step ⟨.string units, done⟩ =
        some ⟨.hex units 2 0, done⟩ := rfl
    have hhigh : Scanner.step ⟨.hex units 2 0, done⟩ (hexDigit (c.toNat / 16)) =
        some ⟨.hex units 1 (c.toNat / 16), done⟩ := by
      simp [Scanner.step, Scanner.stepHex, hexValue?_hexDigit (c.toNat / 16) (by omega)]
    have hlow : Scanner.step ⟨.hex units 1 (c.toNat / 16), done⟩ (hexDigit (c.toNat % 16)) =
        some ⟨.string (c.toNat :: units), done⟩ := by
      simp [Scanner.step, Scanner.stepHex, hexValue?_hexDigit (c.toNat % 16) (by omega),
        Nat.div_add_mod]
    have hsplit : escape c = ['\\', 'u', '0', '0'] ++
        [hexDigit (c.toNat / 16), hexDigit (c.toNat % 16)] := h
    rw [hsplit, List.foldlM_append, hzeros, Option.bind_eq_bind, Option.bind_some,
      List.foldlM_cons, hhigh, Option.bind_eq_bind, Option.bind_some, List.foldlM_cons, hlow]
    rfl
  · have hself : Scanner.step ⟨.string units, done⟩ c =
        some ⟨.string (c.toNat :: units), done⟩ := by
      simp [Scanner.step, Scanner.stepString, hquote, hslash, hcontrol]
    rw [h, List.foldlM_cons, hself]
    rfl

theorem foldlM_escapes (cs : List Char) : ∀ (units : List Nat) (done : List Token),
    (cs.flatMap escape).foldlM Scanner.step ⟨.string units, done⟩ =
      some ⟨.string ((cs.map Char.toNat).reverse ++ units), done⟩ := by
  induction cs with
  | nil => exact fun _ _ => rfl
  | cons c cs ih =>
    intro units done
    rw [List.flatMap_cons, List.foldlM_append, foldlM_escape, Option.bind_eq_bind,
      Option.bind_some, ih]
    simp

/-- The code of a character is no half of a surrogate pair. -/
theorem joinUnits?_map_toNat : ∀ cs : List Char, joinUnits? (cs.map Char.toNat) = some cs
  | [] => rfl
  | c :: cs => by
    have hvalid : c.toNat < 0xD800 ∨ 0xDFFF < c.toNat := c.valid.imp_right And.left
    have hhigh : isHighHalf c.toNat = false := by
      simp only [isHighHalf, Bool.and_eq_false_iff, decide_eq_false_iff_not]
      omega
    have hlow : isLowHalf c.toNat = false := by
      simp only [isLowHalf, Bool.and_eq_false_iff, decide_eq_false_iff_not]
      omega
    rw [List.map_cons]
    unfold joinUnits?
    rw [hhigh, hlow, joinUnits?_map_toNat cs]
    simp

theorem scan_quote (s : Option String) :
    scan done ((quote s).toList ++ rest) = scan (.string s :: done) rest := by
  apply scan_append
  cases s with
  | none =>
    have htext : (quote none).toList = ['"', '\\', 'u', 'd', '8', '0', '0', '"'] := by
      simp [quote]
    rw [htext]
    rfl
  | some s =>
    have htext : (quote (some s)).toList = '"' :: (s.toList.flatMap escape ++ ['"']) := by
      simp [quote]
    have hopen : Scanner.step ⟨.between, done⟩ '"' = some ⟨.string [], done⟩ := rfl
    have hclose : Scanner.step ⟨.string (s.toList.map Char.toNat).reverse, done⟩ '"' =
        some ⟨.between, .string (some s) :: done⟩ := by
      simp [Scanner.step, Scanner.stepString, joinUnits?_map_toNat]
    rw [htext, List.foldlM_cons, hopen, Option.bind_eq_bind, Option.bind_some,
      List.foldlM_append, foldlM_escapes, Option.bind_eq_bind, Option.bind_some, List.append_nil,
      List.foldlM_cons, hclose]
    rfl

/-! ## Values -/

mutual

/-- The tokens of a value. -/
def toTokens : Json → List Token
  | .null => [.null]
  | .bool b => [.bool b]
  | .number n => [.number n]
  | .string s => [.string s]
  | .array [] => [.openArray, .closeArray]
  | .array (j :: js) => .openArray :: (toTokens j ++ (itemTokens js ++ [.closeArray]))
  | .object [] => [.openObject, .closeObject]
  | .object ((k, j) :: ms) =>
    .openObject :: .string k :: .colon :: (toTokens j ++ (memberTokens ms ++ [.closeObject]))

/-- The tokens of the items of an array after the first one. -/
def itemTokens : List Json → List Token
  | [] => []
  | j :: js => .comma :: (toTokens j ++ itemTokens js)

/-- The tokens of the members of an object after the first one. -/
def memberTokens : List (Option String × Json) → List Token
  | [] => []
  | (k, j) :: ms => .comma :: .string k :: .colon :: (toTokens j ++ memberTokens ms)

end

/-- A layout puts nothing but blanks between the tokens. -/
structure Layout.Blank (l : Layout) : Prop where
  lineBreak : ∀ depth, ∀ c ∈ (l.lineBreak depth).toList, Scanner.isBlank c = true
  afterColon : ∀ c ∈ l.afterColon.toList, Scanner.isBlank c = true

theorem Layout.blank_compact : Layout.compact.Blank where
  lineBreak _ _ h := by simp [Layout.compact] at h
  afterColon _ h := by simp [Layout.compact] at h

theorem Layout.blank_pretty : Layout.pretty.Blank where
  lineBreak _ c h := by
    have hc : c = '\n' ∨ c = ' ' := by
      simp only [Layout.pretty, String.toList_append, String.toList_ofList, List.mem_append] at h
      exact h.imp (by simp) List.eq_of_mem_replicate
    rcases hc with rfl | rfl <;> rfl
  afterColon c h := by
    have hc : c = ' ' := by simpa [Layout.pretty] using h
    rw [hc]
    rfl

section Render

variable {l : Layout}

theorem delimited_cons {c : Char} (h : isDelimiter c = true) (cs : List Char) :
    Delimited (c :: cs) := h

theorem delimited_blanks {b : List Char} (hb : ∀ c ∈ b, Scanner.isBlank c = true)
    (hrest : Delimited rest) : Delimited (b ++ rest) := by
  cases b with
  | nil => exact hrest
  | cons c b =>
    have hc := hb c List.mem_cons_self
    exact delimited_cons (by simp [isDelimiter, hc]) _

theorem delimited_renderItems (depth : Nat) (js : List Json) (hrest : Delimited rest) :
    Delimited ((renderItems l depth js).toList ++ rest) := by
  cases js with
  | nil => simpa [renderItems] using hrest
  | cons j js =>
    simp only [renderItems, String.toList_append]
    exact delimited_cons (by decide) _

theorem delimited_renderMembers (depth : Nat) (ms : List (Option String × Json))
    (hrest : Delimited rest) : Delimited ((renderMembers l depth ms).toList ++ rest) := by
  cases ms with
  | nil => simpa [renderMembers] using hrest
  | cons m ms =>
    simp only [renderMembers, String.toList_append]
    exact delimited_cons (by decide) _

/-- The colon of a member, and what stands beside it. -/
theorem scan_colon (hl : l.Blank) :
    scan done (':' :: (l.afterColon.toList ++ rest)) = scan (.colon :: done) rest := by
  rw [scan_punctuation (t := .colon) rfl, scan_blanks hl.afterColon]

mutual

/-- **A printed value is scanned into its tokens**, if what follows may follow a number. -/
theorem scan_render (hl : l.Blank) : ∀ (j : Json) (depth : Nat) (done : List Token)
    {rest : List Char}, Delimited rest →
    scan done ((render l depth j).toList ++ rest) = scan ((toTokens j).reverse ++ done) rest
  | .null, _, _, _, _ => by
    rw [render]
    rfl
  | .bool true, _, _, _, _ => by
    rw [render]
    rfl
  | .bool false, _, _, _, _ => by
    rw [render]
    rfl
  | .number none, _, _, _, hrest => by
    rw [render]
    exact scan_number (s := .zero true) (by rfl) rfl hrest
  | .number (some n), _, _, _, hrest => by
    rw [render]
    exact scan_decimal n hrest
  | .string s, _, _, _, _ => by
    rw [render]
    exact scan_quote s
  | .array [], _, _, _, _ => by
    rw [render]
    rfl
  | .object [], _, _, _, _ => by
    rw [render]
    rfl
  | .array (j :: js), depth, done, rest, hrest => by
    have htext : (render l depth (.array (j :: js))).toList ++ rest =
        '[' :: ((l.lineBreak (depth + 1)).toList ++ ((render l (depth + 1) j).toList ++
          ((renderItems l (depth + 1) js).toList ++
            ((l.lineBreak depth).toList ++ ']' :: rest)))) := by
      simp [render]
    have hend : Delimited ((l.lineBreak depth).toList ++ ']' :: rest) :=
      delimited_blanks (hl.lineBreak depth) (delimited_cons (by decide) rest)
    rw [htext, scan_punctuation (t := .openArray) rfl, scan_blanks (hl.lineBreak _),
      scan_render hl j _ _ (delimited_renderItems _ js hend), scan_renderItems hl js _ _ hend,
      scan_blanks (hl.lineBreak _), scan_punctuation (t := .closeArray) rfl]
    simp [toTokens]
  | .object ((k, j) :: ms), depth, done, rest, hrest => by
    have htext : (render l depth (.object ((k, j) :: ms))).toList ++ rest =
        '\x7b' :: ((l.lineBreak (depth + 1)).toList ++ ((quote k).toList ++
          ':' :: (l.afterColon.toList ++ ((render l (depth + 1) j).toList ++
            ((renderMembers l (depth + 1) ms).toList ++
              ((l.lineBreak depth).toList ++ '\x7d' :: rest)))))) := by
      simp [render]
    have hend : Delimited ((l.lineBreak depth).toList ++ '\x7d' :: rest) :=
      delimited_blanks (hl.lineBreak depth) (delimited_cons (by decide) rest)
    rw [htext, scan_punctuation (t := .openObject) rfl, scan_blanks (hl.lineBreak _), scan_quote,
      scan_colon hl, scan_render hl j _ _ (delimited_renderMembers _ ms hend),
      scan_renderMembers hl ms _ _ hend, scan_blanks (hl.lineBreak _),
      scan_punctuation (t := .closeObject) rfl]
    simp [toTokens]

theorem scan_renderItems (hl : l.Blank) : ∀ (js : List Json) (depth : Nat) (done : List Token)
    {rest : List Char}, Delimited rest → scan done ((renderItems l depth js).toList ++ rest) =
      scan ((itemTokens js).reverse ++ done) rest
  | [], _, _, _, _ => by simp [renderItems, itemTokens]
  | j :: js, depth, done, rest, hrest => by
    have htext : (renderItems l depth (j :: js)).toList ++ rest =
        ',' :: ((l.lineBreak depth).toList ++ ((render l depth j).toList ++
          ((renderItems l depth js).toList ++ rest))) := by
      simp [renderItems]
    rw [htext, scan_punctuation (t := .comma) rfl, scan_blanks (hl.lineBreak _),
      scan_render hl j _ _ (delimited_renderItems _ js hrest), scan_renderItems hl js _ _ hrest]
    simp [itemTokens]

theorem scan_renderMembers (hl : l.Blank) : ∀ (ms : List (Option String × Json)) (depth : Nat)
    (done : List Token) {rest : List Char}, Delimited rest →
    scan done ((renderMembers l depth ms).toList ++ rest) =
      scan ((memberTokens ms).reverse ++ done) rest
  | [], _, _, _, _ => by simp [renderMembers, memberTokens]
  | (k, j) :: ms, depth, done, rest, hrest => by
    have htext : (renderMembers l depth ((k, j) :: ms)).toList ++ rest =
        ',' :: ((l.lineBreak depth).toList ++ ((quote k).toList ++
          ':' :: (l.afterColon.toList ++ ((render l depth j).toList ++
            ((renderMembers l depth ms).toList ++ rest))))) := by
      simp [renderMembers]
    rw [htext, scan_punctuation (t := .comma) rfl, scan_blanks (hl.lineBreak _), scan_quote,
      scan_colon hl, scan_render hl j _ _ (delimited_renderMembers _ ms hrest),
      scan_renderMembers hl ms _ _ hrest]
    simp [memberTokens]

end

end Render

/-- **A printed value has the tokens of the value**, in every layout of blanks. -/
theorem tokens?_render {l : Layout} (hl : l.Blank) (depth : Nat) (j : Json) :
    tokens? (render l depth j).toList = some (toTokens j) := by
  have hscan : scan [] ((render l depth j).toList ++ []) = scan ((toTokens j).reverse ++ []) [] :=
    scan_render hl j depth [] trivial
  rw [List.append_nil, List.append_nil, scan_nil, List.reverse_reverse] at hscan
  rw [tokens?_eq_scan, hscan]

end MicroEngine.Json
