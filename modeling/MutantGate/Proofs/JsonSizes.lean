import MutantGate.Proofs.BinaryModules
import MutantGate.Proofs.JsonModules
/-!
# Modules in JSON form are no larger than their texts

Every token takes at least one byte and a string at least the bytes of its text, for no escape is
shorter than what it stands for.  So the lists and the texts in a value have no more items and
bytes than its JSON text has bytes, and a module that is read from a text of fewer than `256 ^ 8`
bytes has a binary form.

## What is proved

Step by step: a token takes no more than its bytes off the text (`Token.next?_weight`), the machine
that puts tokens together adds no more than their weight to what it has (`step?_within`), and so
every value and every module is bounded by its text, whatever the text is.

## What is left outside

Numbers.  A numeral of few characters may denote a large number, and nothing here bounds it.
-/

namespace MutantGate

/-! ## Characters -/

namespace Utf8

/-- The number of bytes that characters take. -/
def size (cs : List Char) : ℕ := (cs.flatMap String.utf8EncodeChar).length

variable {cs rest : List Char}

theorem length_encode (s : String) : (encode s).length = size s.toList := rfl

@[simp]
theorem size_nil : size [] = 0 := rfl

@[simp]
theorem size_cons (c : Char) (cs : List Char) : size (c :: cs) = c.utf8Size + size cs := by
  rw [size, List.flatMap_cons, List.length_append, String.length_utf8EncodeChar, size]

@[simp]
theorem size_append (cs ds : List Char) : size (cs ++ ds) = size cs + size ds := by
  rw [size, List.flatMap_append, List.length_append, size, size]

theorem size_reverse (cs : List Char) : size cs.reverse = size cs := by
  induction cs with
  | nil => rfl
  | cons c cs ih => simp [ih, Nat.add_comm]

theorem length_le_size (cs : List Char) : cs.length ≤ size cs := by
  induction cs with
  | nil => exact Nat.zero_le _
  | cons c cs ih =>
      have := c.utf8Size_pos
      rw [List.length_cons, size_cons]
      omega

/-- A shorter rest takes fewer bytes. -/
theorem size_lt_of_suffix (h : rest <:+ cs) (hlt : rest.length < cs.length) :
    size rest < size cs := by
  obtain ⟨front, rfl⟩ := h
  have := length_le_size front
  rw [List.length_append] at hlt
  rw [size_append]
  omega

end Utf8

namespace Json

open Utf8

variable {cs rest : List Char}

/-! ## Numbers -/

theorem span_suffix (cs : List Char) : (Decimal.span cs).2 <:+ cs := by
  induction cs with
  | nil => exact List.suffix_rfl
  | cons c cs ih =>
      simp only [Decimal.span]
      split
      · exact ih.trans (List.suffix_cons c cs)
      · exact List.suffix_rfl

theorem span_suffix_of_eq {ds : List Digit} (h : Decimal.span cs = (ds, rest)) : rest <:+ cs := by
  have hsuffix := span_suffix cs
  rwa [h] at hsuffix

theorem wholePart?_suffix {ds : List Digit} (h : wholePart? cs = some (ds, rest)) :
    rest <:+ cs := by
  unfold wholePart? at h
  split at h
  · cases h
  · next hs =>
      cases h
      exact span_suffix_of_eq hs
  · next hs =>
      split at h <;> cases h
      exact span_suffix_of_eq hs

theorem fraction?_suffix {f : Option (List Digit)} (h : fraction? cs = some (f, rest)) :
    rest <:+ cs := by
  unfold fraction? at h
  split at h
  · split at h
    · cases h
    · next hs =>
        cases h
        exact (span_suffix_of_eq hs).trans (List.suffix_cons ..)
  · cases h
    exact List.suffix_rfl

theorem exponentSign_suffix (cs : List Char) : (exponentSign cs).2 <:+ cs := by
  unfold exponentSign
  split
  · exact List.suffix_cons ..
  · exact List.suffix_cons ..
  · exact List.suffix_rfl

theorem exponent?_suffix {e : Option (ExponentSign × List Digit)}
    (h : exponent? cs = some (e, rest)) : rest <:+ cs := by
  unfold exponent? at h
  split at h
  · next c r =>
      split at h
      · split at h
        · cases h
        · next hs =>
            cases h
            exact ((span_suffix_of_eq hs).trans (exponentSign_suffix r)).trans (List.suffix_cons ..)
      · cases h
        exact List.suffix_rfl
  · cases h
    exact List.suffix_rfl

theorem unsigned?_suffix {b : Bool} {n : Numeral} (h : unsigned? b cs = some (n, rest)) :
    rest <:+ cs := by
  simp only [unsigned?, Option.bind_eq_bind, Option.bind_eq_some_iff, Prod.exists] at h
  obtain ⟨_, _, hw, _, _, hf, _, _, he, h⟩ := h
  cases h
  exact ((exponent?_suffix he).trans (fraction?_suffix hf)).trans (wholePart?_suffix hw)

theorem number?_suffix {n : Numeral} (h : number? cs = some (n, rest)) : rest <:+ cs := by
  unfold number? at h
  split at h
  · exact (unsigned?_suffix h).trans (List.suffix_cons ..)
  · exact unsigned?_suffix h

/-! ## Strings -/

/-- The bytes of a character; two halves of a surrogate pair make a character of four. -/
def StringUnit.size : StringUnit → ℕ
  | .char c => c.utf8Size
  | .half _ => 2

theorem StringUnit.size_le (u : StringUnit) : u.size ≤ 4 := by
  cases u with
  | char c => exact c.utf8Size_le_four
  | half code => exact (by decide : 2 ≤ 4)

theorem escape?_utf8Size {c e : Char} (h : escape? c = some e) : e.utf8Size = 1 := by
  unfold escape? at h
  split at h <;> cases h <;> rfl

theorem stringUnits?_size {before us : List StringUnit}
    (h : stringUnits? before cs = some (us, rest)) :
    (us.map StringUnit.size).sum + size rest < (before.map StringUnit.size).sum + size cs := by
  fun_induction stringUnits? before cs with
  | case1 => cases h
  | case2 before r =>
      cases h
      have := '"'.utf8Size_pos
      rw [List.map_reverse, List.sum_reverse, size_cons]
      omega
  | case3 before a b c d r u hu ih =>
      have := ih h
      have := u.size_le
      have := '\\'.utf8Size_pos
      have := 'u'.utf8Size_pos
      have := a.utf8Size_pos
      have := b.utf8Size_pos
      simp only [List.map_cons, List.sum_cons, size_cons] at *
      omega
  | case4 => cases h
  | case5 before c r _ e he ih =>
      have := ih h
      have := escape?_utf8Size he
      have := c.utf8Size_pos
      simp only [List.map_cons, List.sum_cons, size_cons, StringUnit.size] at *
      omega
  | case6 => cases h
  | case7 => cases h
  | case8 before c r _ _ _ _ ih =>
      have := ih h
      simp only [List.map_cons, List.sum_cons, size_cons, StringUnit.size] at *
      omega

theorem textOfUnits?_size {before : List Char} {us : List StringUnit} {s : String}
    (h : textOfUnits? before us = some s) :
    size s.toList ≤ size before + (us.map StringUnit.size).sum := by
  fun_induction textOfUnits? before us with
  | case1 before =>
      cases h
      rw [String.toList_ofList, size_reverse]
      exact Nat.le_add_right _ _
  | case2 before c r ih =>
      have := ih h
      simp only [List.map_cons, List.sum_cons, size_cons, StringUnit.size] at *
      omega
  | case3 before high low r hfit ih =>
      have := ih h
      have := (Char.ofNat (0x10000 + 1024 * (high - 0xD800) + (low - 0xDC00))).utf8Size_le_four
      simp only [List.map_cons, List.sum_cons, size_cons, StringUnit.size] at *
      omega
  | case4 => cases h
  | case5 => cases h

/-! ## Tokens -/

/-- The number of bytes a token takes at least. -/
def Token.weight : Token → ℕ
  | .str (some s) => 1 + size s.toList
  | _ => 1

theorem Token.weight_pos (t : Token) : 0 < t.weight := by
  unfold weight
  split <;> omega

theorem Token.next?_weight {t : Token} (h : Token.next? cs = some (t, rest)) :
    t.weight + size rest ≤ size cs := by
  unfold Token.next? at h
  split at h
  case h_7 r =>
    obtain ⟨⟨us, rest⟩, hunits, heq⟩ := Option.map_eq_some_iff.mp h
    cases heq
    have hsize := stringUnits?_size hunits
    have := '"'.utf8Size_pos
    rw [size_cons]
    cases htext : textOfUnits? [] us with
    | none =>
        simp only [Token.weight, List.map_nil, List.sum_nil] at *
        omega
    | some s =>
        have := textOfUnits?_size htext
        simp only [Token.weight, List.map_nil, List.sum_nil, size_nil] at *
        omega
  case h_11 =>
    obtain ⟨⟨n, rest⟩, hnumber, heq⟩ := Option.map_eq_some_iff.mp h
    cases heq
    have := size_lt_of_suffix (number?_suffix hnumber) (number?_rest_length hnumber)
    simp only [Token.weight]
    omega
  all_goals
    cases h
    simp only [size_cons]
    exact Nat.add_le_add (Char.utf8Size_pos _) (by omega)

theorem tokensFrom?_weight {before ts : List Token} (h : tokensFrom? before cs = some ts) :
    (ts.map Token.weight).sum ≤ (before.map Token.weight).sum + size cs := by
  fun_induction tokensFrom? before cs with
  | case1 before =>
      cases h
      rw [List.map_reverse, List.sum_reverse]
      exact Nat.le_add_right _ _
  | case2 before c r _ ih =>
      have := ih h
      rw [size_cons]
      omega
  | case3 => cases h
  | case4 before c r _ t rest hnext _ ih =>
      have := ih h
      have := Token.next?_weight hnext
      rw [List.map_cons, List.sum_cons] at *
      omega

/-! ## Values -/

/-- The lists and the texts in a value have at most so many items and bytes. -/
inductive Within (n : ℕ) : Json → Prop
  | null : Within n .null
  | bool (b : Bool) : Within n (.bool b)
  | num (x : Numeral) : Within n (.num x)
  | str {text : Option String} (htext : ∀ s ∈ text, size s.toList ≤ n) : Within n (.str text)
  | arr {vs : List Json} (hlength : vs.length ≤ n) (hvs : ∀ v ∈ vs, Within n v) :
      Within n (.arr vs)
  | obj {ms : List (Option String × Json)} (hms : ∀ m ∈ ms, Within n m.2) : Within n (.obj ms)

variable {n n' : ℕ}

theorem Within.mono {v : Json} (h : v.Within n) (hn : n ≤ n') : v.Within n' := by
  induction h with
  | null => exact .null
  | bool b => exact .bool b
  | num x => exact .num x
  | str htext => exact .str fun s hs => (htext s hs).trans hn
  | arr hlength _ ih => exact .arr (hlength.trans hn) ih
  | obj _ ih => exact .obj ih

/-- The complete parts of an array or object. -/
def Frame.Within (n : ℕ) : Frame → Prop
  | .item before => before.length ≤ n ∧ ∀ v ∈ before, v.Within n
  | .member before _ => ∀ m ∈ before, m.2.Within n

/-- Everything that is complete. -/
def Expecting.Within (n : ℕ) : Expecting → Prop
  | .value outer | .firstItem outer | .firstName outer => ∀ f ∈ outer, f.Within n
  | .name before outer | .colon before _ outer =>
    (∀ m ∈ before, m.2.Within n) ∧ ∀ f ∈ outer, f.Within n
  | .following v outer => v.Within n ∧ ∀ f ∈ outer, f.Within n

theorem Frame.Within.mono {f : Frame} (h : f.Within n) (hn : n ≤ n') : f.Within n' := by
  cases f with
  | item before => exact ⟨h.1.trans hn, fun v hv => (h.2 v hv).mono hn⟩
  | member before name => exact fun m hm => (h m hm).mono hn

theorem begin?_within {t : Token} {outer : List Frame} {q : Expecting}
    (h : begin? t outer = some q) (houter : ∀ f ∈ outer, f.Within n) (hn : t.weight ≤ n) :
    q.Within n := by
  unfold begin? at h
  split at h <;> cases h
  · exact ⟨.null, houter⟩
  · exact ⟨.bool _, houter⟩
  · exact ⟨.num _, houter⟩
  · next text =>
      refine ⟨.str ?_, houter⟩
      rintro s rfl
      exact (Nat.le_add_left _ 1).trans hn
  · exact houter
  · exact houter

/-- An item is complete. -/
theorem Frame.Within.item_cons {v : Json} {before : List Json} (hv : v.Within n)
    (hbefore : (Frame.item before).Within n) (hn : n < n') :
    (Frame.item (v :: before)).Within n' := by
  obtain ⟨hlength, hvs⟩ := hbefore
  refine ⟨by rw [List.length_cons]; omega, List.forall_mem_cons.mpr ⟨hv.mono hn.le, ?_⟩⟩
  exact fun w hw => (hvs w hw).mono hn.le

/-- A member is complete. -/
theorem Frame.Within.member_cons {v : Json} {before : List (Option String × Json)}
    {name : Option String} (hv : v.Within n) (hbefore : (Frame.member before name).Within n)
    (hn : n < n') : ∀ m ∈ (name, v) :: before, m.2.Within n' :=
  List.forall_mem_cons.mpr ⟨hv.mono hn.le, fun m hm => (hbefore m hm).mono hn.le⟩

/-- A token adds no more than its weight. -/
theorem step?_within {q q' : Expecting} {t : Token} (h : step? q t = some q') (hq : q.Within n) :
    q'.Within (n + t.weight) := by
  have hlt : n < n + t.weight := Nat.lt_add_of_pos_right t.weight_pos
  have hweight : t.weight ≤ n + t.weight := Nat.le_add_left ..
  have hmembers {ms : List (Option String × Json)} (hms : ∀ m ∈ ms, m.2.Within n) :
      ∀ m ∈ ms, m.2.Within (n + t.weight) := fun m hm => (hms m hm).mono hlt.le
  have hframes {outer : List Frame} (houter : ∀ f ∈ outer, f.Within n) :
      ∀ f ∈ outer, f.Within (n + t.weight) := fun f hf => (houter f hf).mono hlt.le
  unfold step? at h
  split at h
  case h_1 => exact begin?_within h (hframes hq) hweight
  case h_2 =>
    cases h
    exact ⟨.arr (Nat.zero_le _) (List.forall_mem_nil _), hframes hq⟩
  case h_3 =>
    have hitem : (Frame.item []).Within (n + t.weight) := ⟨Nat.zero_le _, List.forall_mem_nil _⟩
    exact begin?_within h (List.forall_mem_cons.mpr ⟨hitem, hframes hq⟩) hweight
  case h_4 =>
    cases h
    exact ⟨.obj (List.forall_mem_nil _), hframes hq⟩
  case h_5 =>
    cases h
    exact ⟨List.forall_mem_nil _, hframes hq⟩
  case h_6 =>
    cases h
    exact ⟨hmembers hq.1, hframes hq.2⟩
  case h_7 =>
    cases h
    exact List.forall_mem_cons.mpr ⟨hmembers hq.1, hframes hq.2⟩
  case h_8 v before outer =>
    cases h
    obtain ⟨hv, hbefore, houter⟩ := hq.imp_right List.forall_mem_cons.mp
    exact List.forall_mem_cons.mpr ⟨.item_cons hv hbefore hlt, hframes houter⟩
  case h_9 v before outer =>
    cases h
    obtain ⟨hv, hbefore, houter⟩ := hq.imp_right List.forall_mem_cons.mp
    obtain ⟨hlength, hvs⟩ := Frame.Within.item_cons hv hbefore hlt
    refine ⟨.arr ?_ fun w hw => hvs w (List.mem_reverse.mp hw), hframes houter⟩
    rwa [List.length_reverse]
  case h_10 v before name outer =>
    cases h
    obtain ⟨hv, hbefore, houter⟩ := hq.imp_right List.forall_mem_cons.mp
    exact ⟨Frame.Within.member_cons hv hbefore hlt, hframes houter⟩
  case h_11 v before name outer =>
    cases h
    obtain ⟨hv, hbefore, houter⟩ := hq.imp_right List.forall_mem_cons.mp
    have hms := Frame.Within.member_cons hv hbefore hlt
    exact ⟨.obj fun m hm => hms m (List.mem_reverse.mp hm), hframes houter⟩
  case h_12 => cases h

theorem foldlM_step?_within {ts : List Token} {q q' : Expecting} (h : ts.foldlM step? q = some q')
    (hq : q.Within n) : q'.Within (n + (ts.map Token.weight).sum) := by
  induction ts generalizing q n with
  | nil =>
      cases h
      exact hq
  | cons t ts ih =>
      obtain ⟨q₁, hstep, hrest⟩ := Option.bind_eq_some_iff.mp h
      have := ih hrest (step?_within hstep hq)
      rwa [List.map_cons, List.sum_cons, ← Nat.add_assoc]

/-- A value is no larger than its text. -/
theorem parse?_within {text : String} {v : Json} (h : parse? text = some v) :
    v.Within (encode text).length := by
  obtain ⟨ts, htokens, hvalue⟩ := Option.bind_eq_some_iff.mp h
  have hweight := tokensFrom?_weight htokens
  unfold ofTokens? at hvalue
  split at hvalue
  · next hfold =>
      cases hvalue
      have hstart : (Expecting.value []).Within 0 := nofun
      refine (foldlM_step?_within hfold hstart).1.mono ?_
      simpa [length_encode] using hweight
  · cases hvalue

/-! ## Typed readings -/

section

variable {α : Type} {item? : Json → Option α} {v : Json}

theorem Within.text? {s : String} (hv : v.Within n) (h : text? v = some s) :
    (encode s).length ≤ n := by
  cases hv with
  | str htext => exact htext s h
  | _ => cases h

/-- A list is no longer than allowed, and its items come from values that keep to this. -/
theorem Within.list? {as : List α} (hv : v.Within n) (h : list? item? v = some as) :
    as.length ≤ n ∧ ∀ a ∈ as, ∃ w, w.Within n ∧ item? w = some a := by
  cases hv with
  | arr hlength hvs =>
      have hitems := mapM_eq_some_iff.mp h
      refine ⟨?_, fun a ha => ?_⟩
      · have := congrArg List.length hitems
        simp only [List.length_map] at this
        omega
      · obtain ⟨w, hw, heq⟩ := List.mem_map.mp (hitems ▸ List.mem_map_of_mem (f := some) ha)
        exact ⟨w, hvs w hw, heq⟩
  | _ => cases h

theorem Within.defaulted?_list? {field : Option Json} {as : List α}
    (hfield : ∀ w ∈ field, w.Within n) (h : defaulted? (Json.list? item?) [] field = some as) :
    as.length ≤ n ∧ ∀ a ∈ as, ∃ w, w.Within n ∧ item? w = some a := by
  cases field with
  | none =>
      cases h
      exact ⟨Nat.zero_le _, nofun⟩
  | some w => exact (hfield w rfl).list? h

theorem member?_mem {ms : List (Option String × Json)} {name : String} {w : Json}
    (h : member? ms name = some (some w)) : ∃ m ∈ ms, m.2 = w := by
  unfold member? at h
  split at h
  · cases h
  · next m hm =>
      cases h
      have : m ∈ ms.filter fun m => m.1 == some name := by
        rw [hm]
        exact List.mem_singleton_self m
      exact ⟨m, List.mem_of_mem_filter this, rfl⟩
  · cases h

/-- The fields of a record come from values in it. -/
theorem Within.record? {names : List String} {r : Record} (hv : v.Within n)
    (h : record? names v = some r) : ∀ field ∈ r.fields, ∀ w ∈ field, w.Within n := by
  unfold Json.record? at h
  split at h
  · next vs =>
      split at h <;> cases h
      rintro field hfield w rfl
      obtain hfield | hfield := List.mem_append.mp hfield
      · obtain ⟨w, hw, heq⟩ := List.mem_map.mp hfield
        cases heq
        cases hv with
        | arr _ hvs => exact hvs w hw
      · cases List.eq_of_mem_replicate hfield
  · next ms =>
      split at h
      · obtain ⟨fields, hfields, rfl⟩ := Option.map_eq_some_iff.mp h
        rintro field hfield w rfl
        obtain ⟨name, -, hname⟩ := List.mem_map.mp
          (mapM_eq_some_iff.mp hfields ▸ List.mem_map_of_mem (f := some) hfield)
        obtain ⟨m, hm, rfl⟩ := member?_mem hname
        cases hv with
        | obj hms => exact hms m hm
      · cases h
  · cases h

end

end Json

/-! ## Modules -/

open Json

variable {n : ℕ} {v : Json}

theorem Instruction.operands_le_of_ofJson? {i : Instruction} (hv : v.Within n)
    (h : Instruction.ofJson? v = some i) : i.operands.length ≤ n := by
  obtain ⟨r, hr, h⟩ := Option.bind_eq_some_iff.mp h
  have hfields := hv.record? hr
  split at h
  · next operands =>
      simp only [Option.bind_eq_bind, Option.bind_eq_some_iff, Option.some_inj] at h
      obtain ⟨_, -, _, -, items, hoperands, rfl⟩ := h
      obtain ⟨w, rfl, hlist⟩ := Option.bind_eq_some_iff.mp hoperands
      exact ((hfields _ (by simp) w rfl).list? hlist).1
  · cases h

theorem Block.lengths_le_of_ofJson? {b : Block} (hv : v.Within n) (h : Block.ofJson? v = some b) :
    b.length ≤ n ∧ ∀ i ∈ b, i.operands.length ≤ n := by
  obtain ⟨r, hr, h⟩ := Option.bind_eq_some_iff.mp h
  have hfields := hv.record? hr
  split at h
  · obtain ⟨w, rfl, hlist⟩ := Option.bind_eq_some_iff.mp h
    obtain ⟨hlength, hitems⟩ := (hfields _ (by simp) w rfl).list? hlist
    refine ⟨hlength, fun i hi => ?_⟩
    obtain ⟨u, hu, hread⟩ := hitems i hi
    exact Instruction.operands_le_of_ofJson? hu hread
  · cases h

theorem Function.lengthsFit_of_ofJson? {f : Function} (hv : v.Within n) (hn : n < 256 ^ 8)
    (h : Function.ofJson? v = some f) : f.LengthsFit := by
  obtain ⟨r, hr, h⟩ := Option.bind_eq_some_iff.mp h
  have hfields := hv.record? hr
  split at h
  · simp only [Option.bind_eq_bind, Option.bind_eq_some_iff, Option.some_inj] at h
    obtain ⟨_, hname, _, -, _, -, _, hblocks, _, -, rfl⟩ := h
    obtain ⟨w, rfl, htext⟩ := Option.bind_eq_some_iff.mp hname
    obtain ⟨u, rfl, hlist⟩ := Option.bind_eq_some_iff.mp hblocks
    obtain ⟨hlength, hitems⟩ := (hfields _ (by simp) u rfl).list? hlist
    refine ⟨((hfields _ (by simp) w rfl).text? htext).trans_lt hn, hlength.trans_lt hn,
      fun b hb => ?_, fun b hb => ?_⟩
    all_goals
      obtain ⟨x, hx, hread⟩ := hitems b hb
      obtain ⟨hinstructions, hoperands⟩ := Block.lengths_le_of_ofJson? hx hread
    · exact hinstructions.trans_lt hn
    · exact fun i hi => (hoperands i hi).trans_lt hn
  · cases h

theorem Module.lengthsFit_of_ofJson? {m : Module} (hv : v.Within n) (hn : n < 256 ^ 8)
    (h : Module.ofJson? v = some m) : m.LengthsFit := by
  obtain ⟨r, hr, h⟩ := Option.bind_eq_some_iff.mp h
  have hfields := hv.record? hr
  split at h
  · simp only [Option.bind_eq_bind, Option.bind_eq_some_iff, Option.some_inj] at h
    obtain ⟨_, hname, _, hfunctions, _, -, _, -, _, hswitches, rfl⟩ := h
    obtain ⟨w, rfl, htext⟩ := Option.bind_eq_some_iff.mp hname
    obtain ⟨u, rfl, hlist⟩ := Option.bind_eq_some_iff.mp hfunctions
    obtain ⟨hlength, hitems⟩ := (hfields _ (by simp) u rfl).list? hlist
    obtain ⟨hlength', hitems'⟩ := Within.defaulted?_list? (hfields _ (by simp)) hswitches
    refine ⟨((hfields _ (by simp) w rfl).text? htext).trans_lt hn, hlength.trans_lt hn,
      fun f hf => ?_, hlength'.trans_lt hn, fun s hs => ?_⟩
    · obtain ⟨x, hx, hread⟩ := hitems f hf
      exact Function.lengthsFit_of_ofJson? hx hn hread
    · obtain ⟨x, hx, hread⟩ := hitems' s hs
      exact (hx.text? hread).trans_lt hn
  · cases h

/-- A module that is read from a text of fewer than `256 ^ 8` bytes has a binary form. -/
theorem Module.lengthsFit_of_ofJsonText? {m : Module} {text : String}
    (h : Module.ofJsonText? text = some m) (hn : (Utf8.encode text).length < 256 ^ 8) :
    m.LengthsFit := by
  obtain ⟨v, hparse, hread⟩ := Option.bind_eq_some_iff.mp h
  exact Module.lengthsFit_of_ofJson? (parse?_within hparse) hn hread

end MutantGate
