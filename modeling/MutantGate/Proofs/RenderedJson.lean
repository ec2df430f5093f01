import Mathlib.Data.Fintype.Basic
import Mathlib.Tactic.FinCases
import MutantGate.Json.Reader
import MutantGate.Json.Writer
import MutantGate.Proofs.Numerals
/-!
# Rendered JSON is read back

A rendered value is cut into the tokens of its grammar, whatever the line breaks and blanks
between them, and the machine that puts tokens together takes these tokens from waiting for a
value to having that value, inside of whatever it is in.  So the text of every value that can be
written at all (its strings have a text, its numerals keep to the grammar) is read as this value.

## What is proved

For every value that can be written, at any depth: cutting its text gives its tokens
(`Writable.cutsToTokens`) and the tokens give the value (`foldlM_tokens`), both by induction on the
value; together they are `Writable.parse?_render`.

## What is left outside

Texts that the writer does not write.  The reader takes them, but nothing is proved about what it
makes of them, apart from its size (`Proofs.JsonSizes`).
-/

namespace MutantGate.Json

variable {rest : List Char}

/-! ## Strings -/

theorem digit?_hexChar : ∀ n < 16, Hexadecimal.digit? (hexChar n) = some n := by
  decide

/-- The escape of a control character without a letter of its own stands for it. -/
theorem unicodeEscape?_hexChar {c : Char} (hc : c.toNat < 0x20) :
    unicodeEscape? '0' '0' (hexChar (c.toNat / 16)) (hexChar (c.toNat % 16)) = some (.char c) := by
  have hzero : Hexadecimal.digit? '0' = some 0 := by decide
  have hcode : 256 * (16 * 0 + 0) + (16 * (c.toNat / 16) + c.toNat % 16) = c.toNat := by omega
  have hlow : ¬ (0xD800 ≤ c.toNat ∧ c.toNat < 0xE000) := by omega
  simp only [unicodeEscape?, hzero, digit?_hexChar (c.toNat / 16) (by omega),
    digit?_hexChar (c.toNat % 16) (by omega), Option.bind_eq_bind, Option.bind_some, hcode, hlow,
    if_false, Char.ofNat_toNat]

/-- A character inside quotes is read as one unit. -/
theorem stringUnits?_escaped (before : List StringUnit) (c : Char) (rest : List Char) :
    stringUnits? before (escaped c ++ rest) = stringUnits? (.char c :: before) rest := by
  unfold escaped
  split
  case h_8 c hquote hbackslash _ _ _ _ _ =>
    split
    · next hc =>
        simp only [List.cons_append, List.nil_append, stringUnits?, unicodeEscape?_hexChar hc]
    · next hc =>
        rw [List.singleton_append, stringUnits?.eq_def]
        split
        · next h => cases h
        · next h => exact absurd (List.cons.inj h).1 hquote
        · next h => exact absurd (List.cons.inj h).1 hbackslash
        · next h => exact absurd (List.cons.inj h).1 hbackslash
        · next h =>
            obtain ⟨rfl, rfl⟩ := List.cons.inj h
            exact if_neg fun h => h.elim hbackslash hc
  all_goals rfl

/-- A text inside quotes is read up to the closing quote. -/
theorem stringUnits?_flatMap_escaped (before : List StringUnit) (cs rest : List Char) :
    stringUnits? before (cs.flatMap escaped ++ '"' :: rest) =
      some (before.reverse ++ cs.map .char, rest) := by
  induction cs generalizing before with
  | nil =>
      simp only [List.flatMap_nil, List.nil_append, stringUnits?, List.map_nil, List.append_nil]
  | cons c cs ih =>
      rw [List.flatMap_cons, List.append_assoc, stringUnits?_escaped, ih, List.reverse_cons,
        List.append_assoc, List.singleton_append, List.map_cons]

/-- Units that are characters have these as their text. -/
theorem textOfUnits?_chars (before cs : List Char) :
    textOfUnits? before (cs.map .char) = some (String.ofList (before.reverse ++ cs)) := by
  induction cs generalizing before with
  | nil => simp only [List.map_nil, textOfUnits?, List.append_nil]
  | cons c cs ih =>
      rw [List.map_cons, textOfUnits?, ih, List.reverse_cons, List.append_assoc,
        List.singleton_append]

/-! ## Tokens -/

theorem Token.next?_quoted (s : String) (rest : List Char) :
    Token.next? (quoted s ++ rest) = some (.str (some s), rest) := by
  have hunits : stringUnits? [] (s.toList.flatMap escaped ++ '"' :: rest) =
      some (s.toList.map .char, rest) := stringUnits?_flatMap_escaped [] _ _
  have htext : textOfUnits? [] (s.toList.map .char) = some s := by
    rw [textOfUnits?_chars, List.reverse_nil, List.nil_append, String.ofList_toList]
  rw [quoted, List.cons_append, List.cons_append, List.append_assoc, List.singleton_append]
  simp only [Token.next?, hunits, Option.map_some, htext]

/-- A token that starts with a digit or a minus sign is a number. -/
theorem Token.next?_eq_number? {c : Char} (hc : c = '-' ∨ ∃ d : Digit, c = d.char)
    (rest : List Char) :
    Token.next? (c :: rest) = (number? (c :: rest)).map fun p => (.num p.1, p.2) := by
  rcases hc with rfl | ⟨d, rfl⟩
  · rfl
  · fin_cases d <;> rfl

theorem Token.next?_numeral {n : Numeral} (hn : n.IsGrammatical) (hrest : EndsNumber rest) :
    Token.next? (n.chars ++ rest) = some (.num n, rest) := by
  have hread := number?_append hn hrest
  obtain ⟨c, cs, hchars, hc⟩ :
      ∃ c cs, n.chars = c :: cs ∧ (c = '-' ∨ ∃ d : Digit, c = d.char) := by
    obtain ⟨d, ds, hwhole⟩ := List.exists_cons_of_ne_nil hn.whole
    unfold Numeral.chars
    rw [hwhole]
    cases n.isNegative with
    | true => exact ⟨_, _, rfl, .inl rfl⟩
    | false => exact ⟨_, _, rfl, .inr ⟨d, rfl⟩⟩
  rw [hchars, List.cons_append] at hread ⊢
  rw [Token.next?_eq_number? hc, hread, Option.map_some]

/-! ## Cutting a rendered value -/

theorem Token.next?_blank {c : Char} (hc : isBlank c = true) (rest : List Char) :
    Token.next? (c :: rest) = none := by
  simp only [isBlank, Bool.or_eq_true, beq_iff_eq] at hc
  obtain ((rfl | rfl) | rfl) | rfl := hc <;> rfl

theorem tokensFrom?_blank (before : List Token) {c : Char} (hc : isBlank c = true)
    (rest : List Char) : tokensFrom? before (c :: rest) = tokensFrom? before rest := by
  rw [tokensFrom?, if_pos hc]

theorem tokensFrom?_next (before : List Token) {cs : List Char} {t : Token}
    (h : Token.next? cs = some (t, rest)) :
    tokensFrom? before cs = tokensFrom? (t :: before) rest := by
  cases cs with
  | nil => cases h
  | cons c cs =>
      have hc : ¬ isBlank c = true := fun hc => by
        rw [Token.next?_blank hc] at h
        cases h
      rw [tokensFrom?, if_neg hc]
      split
      · next hnone =>
          rw [h] at hnone
          cases hnone
      · next t' rest' hsome =>
          rw [h] at hsome
          cases hsome
          rfl

theorem tokensFrom?_lineBreak (before : List Token) (depth : Nat) (rest : List Char) :
    tokensFrom? before (lineBreak depth ++ rest) = tokensFrom? before rest := by
  rw [lineBreak, List.cons_append, tokensFrom?_blank before (by decide)]
  induction 2 * depth with
  | zero => rfl
  | succ n ih =>
      rw [List.replicate_succ, List.cons_append, tokensFrom?_blank before (by decide), ih]

mutual

/-- The tokens of a value. -/
def tokens : Json → List Token
  | .null => [.null]
  | .bool b => [.bool b]
  | .num n => [.num n]
  | .str s => [.str s]
  | .arr [] => [.openArray, .closeArray]
  | .arr (v :: vs) => .openArray :: tokens v ++ itemTokens vs ++ [.closeArray]
  | .obj [] => [.openObject, .closeObject]
  | .obj ((s, v) :: ms) =>
    .openObject :: .str s :: .colon :: tokens v ++ memberTokens ms ++ [.closeObject]

/-- The tokens of the further items of an array. -/
def itemTokens : List Json → List Token
  | [] => []
  | v :: vs => .comma :: tokens v ++ itemTokens vs

/-- The tokens of the further members of an object. -/
def memberTokens : List (Option String × Json) → List Token
  | [] => []
  | (s, v) :: ms => .comma :: .str s :: .colon :: tokens v ++ memberTokens ms

end

/-- A value that can be written: strings have a text, and numerals keep to the grammar. -/
inductive Writable : Json → Prop
  | null : Writable .null
  | bool (b : Bool) : Writable (.bool b)
  | num {n : Numeral} (hn : n.IsGrammatical) : Writable (.num n)
  | text (s : String) : Writable (.text s)
  | arr {vs : List Json} (hvs : ∀ v ∈ vs, Writable v) : Writable (.arr vs)
  | obj {ms : List (Option String × Json)} (hnames : ∀ m ∈ ms, m.1.isSome)
      (hms : ∀ m ∈ ms, Writable m.2) : Writable (.obj ms)

/-- Cutting takes the tokens off the characters and goes on with the rest. -/
def Cuts (cs : List Char) (ts : List Token) (rest : List Char) : Prop :=
  ∀ before, tokensFrom? before (cs ++ rest) = tokensFrom? (ts.reverse ++ before) rest

theorem Cuts.append {cs cs' : List Char} {ts ts' : List Token} (h : Cuts cs ts (cs' ++ rest))
    (h' : Cuts cs' ts' rest) : Cuts (cs ++ cs') (ts ++ ts') rest := fun before => by
  rw [List.append_assoc, h, h', List.reverse_append, List.append_assoc]

theorem Cuts.of_next? {cs : List Char} {t : Token}
    (h : Token.next? (cs ++ rest) = some (t, rest)) : Cuts cs [t] rest :=
  fun before => tokensFrom?_next before h

theorem Cuts.lineBreak {cs : List Char} {ts : List Token} {depth : Nat}
    (h : Cuts cs ts (Json.lineBreak depth ++ rest)) : Cuts (cs ++ Json.lineBreak depth) ts rest :=
  fun before => by rw [List.append_assoc, h, tokensFrom?_lineBreak]

theorem cuts_quoted (s : String) : Cuts (quoted s) [.str (some s)] rest :=
  .of_next? (Token.next?_quoted s rest)

theorem cuts_colon : Cuts [':', ' '] [.colon] rest := fun before => by
  rw [List.cons_append, tokensFrom?_next (t := .colon) before rfl, List.singleton_append,
    tokensFrom?_blank _ (by decide)]
  rfl

theorem EndsNumber.cons {c : Char}
    (hc : Digit.ofChar? c = none ∧ c ≠ '.' ∧ c ≠ 'e' ∧ c ≠ 'E') : EndsNumber (c :: rest) := by
  rintro c' ⟨⟩
  exact hc

theorem endsNumber_lineBreak (depth : Nat) : EndsNumber (lineBreak depth ++ rest) :=
  .cons (by decide)

theorem endsNumber_itemChars (depth : Nat) (vs : List Json) (h : EndsNumber rest) :
    EndsNumber (itemChars depth vs ++ rest) := by
  cases vs with
  | nil => exact h
  | cons v vs => exact .cons (by decide)

theorem endsNumber_memberChars (depth : Nat) (ms : List (Option String × Json))
    (h : EndsNumber rest) : EndsNumber (memberChars depth ms ++ rest) := by
  cases ms with
  | nil => exact h
  | cons m ms => exact .cons (by decide)

/-- The characters of a value are cut into its tokens, at any depth. -/
def CutsToTokens (v : Json) : Prop :=
  ∀ depth rest, EndsNumber rest → Cuts (chars depth v) (tokens v) rest

theorem cuts_itemChars {vs : List Json} (h : ∀ v ∈ vs, CutsToTokens v) (depth : Nat)
    (hrest : EndsNumber rest) : Cuts (itemChars depth vs) (itemTokens vs) rest := by
  induction vs with
  | nil => exact fun before => rfl
  | cons v vs ih =>
      obtain ⟨hv, hvs⟩ := List.forall_mem_cons.mp h
      have hcomma : ∀ rest, Cuts [','] [.comma] rest := fun rest => .of_next? rfl
      rw [itemChars, itemTokens]
      exact ((hcomma _).lineBreak.append
        (hv depth _ (endsNumber_itemChars depth vs hrest))).append (ih hvs)

theorem cuts_memberChars {ms : List (Option String × Json)} (hnames : ∀ m ∈ ms, m.1.isSome)
    (h : ∀ m ∈ ms, CutsToTokens m.2) (depth : Nat) (hrest : EndsNumber rest) :
    Cuts (memberChars depth ms) (memberTokens ms) rest := by
  induction ms with
  | nil => exact fun before => rfl
  | cons m ms ih =>
      obtain ⟨hname, hmore⟩ := List.forall_mem_cons.mp hnames
      obtain ⟨hv, htail⟩ := List.forall_mem_cons.mp h
      have hcomma : ∀ rest, Cuts [','] [.comma] rest := fun rest => .of_next? rfl
      obtain ⟨_ | s, v⟩ := m
      · cases hname
      rw [memberChars, memberTokens]
      exact ((((hcomma _).lineBreak.append (cuts_quoted s)).append cuts_colon).append
        (hv depth _ (endsNumber_memberChars depth ms hrest))).append (ih hmore htail)

/-- A value that can be written is cut into its tokens. -/
theorem Writable.cutsToTokens {v : Json} (hv : v.Writable) : CutsToTokens v := by
  induction hv with
  | null => exact fun depth rest _ => .of_next? rfl
  | bool b => cases b <;> exact fun depth rest _ => .of_next? rfl
  | num hn => exact fun depth rest hrest => .of_next? (Token.next?_numeral hn hrest)
  | text s => exact fun depth rest _ => cuts_quoted s
  | @arr vs _ ih =>
      intro depth rest hrest
      have hopen : ∀ rest, Cuts ['['] [.openArray] rest := fun rest => .of_next? rfl
      have hclose : ∀ rest, Cuts [']'] [.closeArray] rest := fun rest => .of_next? rfl
      cases vs with
      | nil => exact (hopen _).append (hclose _)
      | cons v vs =>
          obtain ⟨hv, hvs⟩ := List.forall_mem_cons.mp ih
          have hbreak : EndsNumber (lineBreak depth ++ ([']'] ++ rest)) :=
            endsNumber_lineBreak depth
          rw [chars, tokens]
          exact ((((hopen _).lineBreak.append
            (hv _ _ (endsNumber_itemChars _ vs hbreak))).append
            (cuts_itemChars hvs _ hbreak)).lineBreak).append (hclose _)
  | @obj ms hnames _ ih =>
      intro depth rest hrest
      have hopen : ∀ rest, Cuts ['\x7b'] [.openObject] rest := fun rest => .of_next? rfl
      have hclose : ∀ rest, Cuts ['\x7d'] [.closeObject] rest := fun rest => .of_next? rfl
      cases ms with
      | nil => exact (hopen _).append (hclose _)
      | cons m ms =>
          obtain ⟨hname, hmore⟩ := List.forall_mem_cons.mp hnames
          obtain ⟨hv, htail⟩ := List.forall_mem_cons.mp ih
          have hbreak : EndsNumber (lineBreak depth ++ (['\x7d'] ++ rest)) :=
            endsNumber_lineBreak depth
          obtain ⟨_ | s, v⟩ := m
          · cases hname
          rw [chars, tokens]
          exact ((((((hopen _).lineBreak.append (cuts_quoted s)).append cuts_colon).append
            (hv _ _ (endsNumber_memberChars _ ms hbreak))).append
            (cuts_memberChars hmore htail _ hbreak)).lineBreak).append (hclose _)

/-! ## Putting tokens together -/

/-- The first token of a value starts it as an item as it would start it anywhere. -/
theorem foldlM_firstItem (v : Json) (outer : List Frame) (ts : List Token) :
    (tokens v ++ ts).foldlM step? (.firstItem outer) =
      (tokens v ++ ts).foldlM step? (.value (.item [] :: outer)) := by
  match v with
  | .null | .bool _ | .num _ | .str _ => rfl
  | .arr [] | .arr (_ :: _) | .obj [] | .obj ((_, _) :: _) => rfl

mutual

/-- Behind the tokens of a value the machine has that value. -/
theorem foldlM_tokens (v : Json) (outer : List Frame) (ts : List Token) :
    (tokens v ++ ts).foldlM step? (.value outer) = ts.foldlM step? (.following v outer) :=
  match v with
  | .null | .bool _ | .num _ | .str _ | .arr [] | .obj [] => rfl
  | .arr (v :: vs) => by
      have hitems := foldlM_itemTokens vs v [] outer ts
      rw [tokens, List.append_assoc, List.append_assoc]
      calc _ = (tokens v ++ (itemTokens vs ++ .closeArray :: ts)).foldlM step? (.firstItem outer) :=
              rfl
        _ = _ := by rw [foldlM_firstItem, foldlM_tokens v, hitems]; rfl
  | .obj ((s, v) :: ms) => by
      have hmembers := foldlM_memberTokens ms s v [] outer ts
      rw [tokens, List.append_assoc, List.append_assoc]
      calc _ = (tokens v ++ (memberTokens ms ++ .closeObject :: ts)).foldlM step?
                (.value (.member [] s :: outer)) := rfl
        _ = _ := by rw [foldlM_tokens v, hmembers]; rfl

/-- Behind the further items of an array the machine has the array. -/
theorem foldlM_itemTokens (vs : List Json) (v : Json) (before : List Json) (outer : List Frame)
    (ts : List Token) :
    (itemTokens vs ++ .closeArray :: ts).foldlM step? (.following v (.item before :: outer)) =
      ts.foldlM step? (.following (.arr (before.reverse ++ v :: vs)) outer) :=
  match vs with
  | [] => by
      rw [itemTokens, List.nil_append, List.foldlM_cons]
      simp [step?]
  | w :: vs => by
      have hitems := foldlM_itemTokens vs w (v :: before) outer ts
      rw [itemTokens, List.append_assoc]
      calc _ = (tokens w ++ (itemTokens vs ++ .closeArray :: ts)).foldlM step?
                (.value (.item (v :: before) :: outer)) := rfl
        _ = _ := by
              rw [foldlM_tokens w, hitems, List.reverse_cons, List.append_assoc,
                List.singleton_append]

/-- Behind the further members of an object the machine has the object. -/
theorem foldlM_memberTokens (ms : List (Option String × Json)) (s : Option String) (v : Json)
    (before : List (Option String × Json)) (outer : List Frame) (ts : List Token) :
    (memberTokens ms ++ .closeObject :: ts).foldlM step?
        (.following v (.member before s :: outer)) =
      ts.foldlM step? (.following (.obj (before.reverse ++ (s, v) :: ms)) outer) :=
  match ms with
  | [] => by
      rw [memberTokens, List.nil_append, List.foldlM_cons]
      simp [step?]
  | (s', w) :: ms => by
      have hmembers := foldlM_memberTokens ms s' w ((s, v) :: before) outer ts
      rw [memberTokens, List.append_assoc]
      calc _ = (tokens w ++ (memberTokens ms ++ .closeObject :: ts)).foldlM step?
                (.value (.member ((s, v) :: before) s' :: outer)) := rfl
        _ = _ := by
              rw [foldlM_tokens w, hmembers, List.reverse_cons, List.append_assoc,
                List.singleton_append]

end

theorem ofTokens?_tokens (v : Json) : ofTokens? (tokens v) = some v := by
  have hrun := foldlM_tokens v [] []
  rw [List.append_nil] at hrun
  rw [ofTokens?, hrun]
  rfl

/-- The text of a value that can be written is read as this value. -/
theorem Writable.parse?_render {v : Json} (hv : v.Writable) : parse? v.render = some v := by
  have hcuts := hv.cutsToTokens 0 [] (fun c hc => by cases hc) []
  rw [List.append_nil, tokensFrom?, List.append_nil, List.reverse_reverse] at hcuts
  rw [parse?, tokens?, render, String.toList_ofList, hcuts, Option.bind_some, ofTokens?_tokens]

end MutantGate.Json
