import MutantGate.IR.JsonForm
import MutantGate.Proofs.ReadBack
import MutantGate.Proofs.RenderedJson
/-!
# Modules in JSON form

Each typed reading takes back what the writer of its type gives, from the numbers up to the whole
module, and what is written is a value that has a text.  The only constants that are lost are
numbers that are not finite.

## What is proved

For every module, well-formed or not and with texts of any characters: its text is read as the
module exactly if all numbers in it are finite.  If one of them is not, the text is refused and no
other module is read from it.

## What is left outside

Texts that the writer does not write: with other blanks, with fields left out or in another order.
The readers take them, but nothing is proved here about what they make of them.
-/

namespace MutantGate

namespace Json

/-! ## Values that can be written -/

theorem writable_ofNat (n : Nat) : (ofNat n).Writable := .num (Numeral.isGrammatical_ofNat n)

theorem writable_ofInt (i : Int) : (ofInt i).Writable := .num (Numeral.isGrammatical_ofInt i)

theorem writable_object {ms : List (String × Json)} (h : ∀ m ∈ ms, m.2.Writable) :
    (object ms).Writable := by
  refine .obj ?_ ?_ <;> simp only [List.forall_mem_map]
  · exact fun _ _ => rfl
  · exact h

theorem writable_list {α : Type} {write : α → Json} {as : List α}
    (h : ∀ a ∈ as, (write a).Writable) : (arr (as.map write)).Writable :=
  .arr (List.forall_mem_map.mpr h)

/-! ## Readings of what was written -/

section

variable {α β γ : Type}

theorem mapM_eq_some_iff {f : α → Option β} {as : List α} {bs : List β} :
    as.mapM f = some bs ↔ as.map f = bs.map some := by
  induction as generalizing bs with
  | nil => cases bs <;> simp
  | cons a as ih =>
      simp only [List.mapM_cons, Option.bind_eq_bind, Option.bind_eq_some_iff, Option.pure_def,
        Option.some_inj, ih]
      constructor
      · rintro ⟨b, hb, bs, hbs, rfl⟩
        rw [List.map_cons, List.map_cons, hb, hbs]
      · intro h
        obtain ⟨b, bs, rfl, hb, hbs⟩ := List.map_eq_cons_iff.mp h.symm
        exact ⟨b, hb.symm, bs, hbs.symm, rfl⟩

theorem mapM_map_eq_some {f : β → Option γ} {g : α → β} {k : α → γ} {as : List α}
    (h : ∀ a ∈ as, f (g a) = some (k a)) : (as.map g).mapM f = some (as.map k) := by
  rw [mapM_eq_some_iff, List.map_map, List.map_map]
  exact List.map_congr_left h

/-- Items are read one by one; if one of them is not read back, then the list is not. -/
theorem mapM_map_eq_ite {f : β → Option α} {g : α → β} {p : α → Prop} [DecidablePred p]
    {as : List α} (h : ∀ a ∈ as, f (g a) = if p a then some a else none) :
    (as.map g).mapM f = if ∀ a ∈ as, p a then some as else none := by
  induction as with
  | nil => simp
  | cons a as ih =>
      obtain ⟨ha, has⟩ := List.forall_mem_cons.mp h
      rw [List.map_cons, List.mapM_cons, ha, ih has]
      by_cases hp : p a
      · by_cases hall : ∀ a ∈ as, p a
        · rw [if_pos hp, if_pos hall, if_pos (List.forall_mem_cons.mpr ⟨hp, hall⟩)]
          rfl
        · rw [if_pos hp, if_neg hall, if_neg fun h => hall (List.forall_mem_cons.mp h).2]
          rfl
      · rw [if_neg hp, if_neg fun h => hp (List.forall_mem_cons.mp h).1]
        rfl

theorem list?_map {item? : Json → Option α} {write : α → Json} {p : α → Prop} [DecidablePred p]
    {as : List α} (h : ∀ a ∈ as, item? (write a) = if p a then some a else none) :
    list? item? (arr (as.map write)) = if ∀ a ∈ as, p a then some as else none :=
  mapM_map_eq_ite h

end

theorem intIn?_ofInt {low limit i : Int} (h : low ≤ i ∧ i < limit) :
    intIn? low limit (ofInt i) = some i := by
  simp only [intIn?, ofInt, Numeral.toInt?_ofInt, Option.filter_some, h.1, h.2, decide_true,
    Bool.and_self, if_true]

theorem natBelow?_ofNat {limit n : Nat} (h : n < limit) : natBelow? limit (ofNat n) = some n := by
  have hrange : (0 : Int) ≤ n ∧ (n : Int) < limit := by omega
  simp only [natBelow?, intIn?, ofNat, Numeral.toInt?_ofNat, Option.filter_some, hrange.1,
    hrange.2, decide_true, Bool.and_self, if_true, Option.map_some, Int.toNat_natCast]

/-- A member whose name no other member has is found. -/
theorem member?_of_mem {ms : List (String × Json)} (hnames : (ms.map Prod.fst).Nodup)
    {s : String} {v : Json} (h : (s, v) ∈ ms) :
    member? (ms.map fun m => (some m.1, m.2)) s = some (some v) := by
  suffices hfilter : (ms.map fun m => (some m.1, m.2)).filter (fun m => m.1 == some s) =
      [(some s, v)] by
    rw [member?, hfilter]
  induction ms with
  | nil => cases h
  | cons m ms ih =>
      obtain ⟨hm, hnames⟩ := List.nodup_cons.mp hnames
      rw [List.map_cons, List.filter_cons]
      obtain rfl | h := List.mem_cons.mp h
      · have hnone : (ms.map fun m => (some m.1, m.2)).filter (fun m => m.1 == some s) = [] := by
          rw [List.filter_eq_nil_iff, List.forall_mem_map]
          rintro m' hm' hsame
          exact hm (List.mem_map.mpr ⟨m', hm', Option.some.inj (eq_of_beq hsame)⟩)
        rw [if_pos (beq_self_eq_true _), hnone]
      · have hother : ¬ (some m.1 == some s) = true := fun hsame =>
          hm (List.mem_map.mpr ⟨(s, v), h, (Option.some.inj (eq_of_beq hsame)).symm⟩)
        rw [if_neg hother, ih hnames h]

/-- A record that was written by name has all of its fields. -/
theorem record?_object {names : List String} {ms : List (String × Json)}
    (hms : ms.map Prod.fst = names) (hnames : names.Nodup) :
    record? names (object ms) = some ⟨false, ms.map fun m => some m.2⟩ := by
  subst hms
  have hsome : ((ms.map fun m => (some m.1, m.2)).all fun m => m.1.isSome) = true := by
    rw [List.all_map, List.all_eq_true]
    exact fun _ _ => rfl
  rw [object, record?, if_pos hsome,
    mapM_map_eq_some (k := fun m => some m.2) fun m hm => member?_of_mem hnames hm, Option.map_some]

theorem required?_some {α : Type} {content? : Json → Option α} {v : Json} {a : α}
    (h : content? v = some a) : required? content? (some v) = some a := h

end Json

open Json

/-! ## Constants and operands -/

theorem Binary32.numeral?_eq_none {x : Binary32} (h : ¬ x.isFinite) (l : Layout) :
    l.numeral? x = none := by
  have hmax : x.exponentField = 255 := by simpa [Binary32.isFinite] using h
  by_cases hfraction : x.fractionField = 0 <;>
    simp only [Layout.numeral?, Binary32.magnitude, hmax, hfraction, if_true, if_false]

/-- A number is read back if it is finite. -/
theorem Binary32.ofJson?_toJson (x : Binary32) :
    Binary32.ofJson? x.toJson = if x.isFinite then some x else none := by
  split
  · next h =>
      obtain ⟨n, hn, hx⟩ := exists_numeral?_toBinary32? h
      rw [Binary32.toJson, hn]
      exact hx
  · next h =>
      rw [Binary32.toJson, numeral?_eq_none h]
      rfl

theorem Binary32.writable_toJson (x : Binary32) : x.toJson.Writable := by
  unfold Binary32.toJson
  split
  · next hn => exact .num (Layout.isGrammatical_of_numeral? hn)
  · exact .null

theorem Register.ofJson?_toJson (r : Register) : Register.ofJson? r.toJson = some r := by
  rw [Register.ofJson?, Register.toJson, natBelow?_ofNat r.index.toNat_lt, Option.map_some,
    Nat.toUInt8_eq, UInt8.ofNat_toNat]

theorem index32?_ofNat (i : UInt32) : index32? (.ofNat i.toNat) = some i := by
  rw [index32?, natBelow?_ofNat i.toNat_lt, Option.map_some, Nat.toUInt32_eq, UInt32.ofNat_toNat]

theorem count64?_ofNat (n : UInt64) : count64? (.ofNat n.toNat) = some n := by
  rw [count64?, natBelow?_ofNat n.toNat_lt, Option.map_some, Nat.toUInt64_eq, UInt64.ofNat_toNat]

/-- The number a constant is, if it is one. -/
def Value.float? : Value → Option Binary32
  | .float x => some x
  | _ => none

/-- The number an operand holds, if it is a constant of this type. -/
def Operand.float? : Operand → Option Binary32
  | .immediate v => v.float?
  | _ => none

theorem Value.writable_toJson (v : Value) : v.toJson.Writable := by
  cases v with
  | int w => exact writable_object (List.forall_mem_singleton.mpr (writable_ofInt _))
  | float x => exact writable_object (List.forall_mem_singleton.mpr x.writable_toJson)
  | bool b => exact writable_object (List.forall_mem_singleton.mpr (.bool b))

theorem Value.ofJson?_toJson (v : Value) :
    Value.ofJson? v.toJson = if ∀ x ∈ v.float?, x.isFinite then some v else none := by
  cases v with
  | int w =>
      have hlow := BitVec.le_toInt w
      have hhigh := BitVec.toInt_lt (x := w)
      have hread (content : Json) : Value.ofJson? (.object [("Int", content)]) =
          (intIn? (-0x80000000) 0x80000000 content).map fun i => .int (BitVec.ofInt 32 i) := rfl
      rw [Value.toJson, hread, intIn?_ofInt (by omega), Option.map_some, BitVec.ofInt_toInt]
      simp [Value.float?]
  | float x =>
      have hread (content : Json) : Value.ofJson? (.object [("Float", content)]) =
          (Binary32.ofJson? content).map .float := rfl
      rw [Value.toJson, hread, x.ofJson?_toJson]
      by_cases h : x.isFinite <;> simp [Value.float?, h]
  | bool b =>
      have hread (content : Json) : Value.ofJson? (.object [("Bool", content)]) =
          (bool? content).map .bool := rfl
      rw [Value.toJson, hread]
      simp [Value.float?, bool?]

theorem Operand.writable_toJson (o : Operand) : o.toJson.Writable := by
  cases o with
  | immediate v => exact writable_object (List.forall_mem_singleton.mpr v.writable_toJson)
  | register | block | function | switch =>
      exact writable_object (List.forall_mem_singleton.mpr (writable_ofNat _))

theorem Operand.ofJson?_toJson (o : Operand) :
    Operand.ofJson? o.toJson = if ∀ x ∈ o.float?, x.isFinite then some o else none := by
  cases o with
  | immediate v =>
      have hread (content : Json) : Operand.ofJson? (.object [("Immediate", content)]) =
          (Value.ofJson? content).map .immediate := rfl
      rw [Operand.toJson, hread, v.ofJson?_toJson, Operand.float?]
      split <;> rfl
  | register r =>
      have hread (content : Json) : Operand.ofJson? (.object [("Register", content)]) =
          (Register.ofJson? content).map .register := rfl
      rw [Operand.toJson, hread, r.ofJson?_toJson]
      simp [Operand.float?]
  | block i =>
      have hread (content : Json) : Operand.ofJson? (.object [("BlockIndex", content)]) =
          (index32? content).map .block := rfl
      rw [Operand.toJson, hread, index32?_ofNat]
      simp [Operand.float?]
  | function i =>
      have hread (content : Json) : Operand.ofJson? (.object [("FunctionIndex", content)]) =
          (index32? content).map .function := rfl
      rw [Operand.toJson, hread, index32?_ofNat]
      simp [Operand.float?]
  | switch i =>
      have hread (content : Json) : Operand.ofJson? (.object [("Switch", content)]) =
          (index32? content).map .switch := rfl
      rw [Operand.toJson, hread, index32?_ofNat]
      simp [Operand.float?]

/-! ## Instructions -/

theorem Opcode.ofJson?_name (o : Opcode) : Opcode.ofJson? (.text o.name) = some o := by
  cases o <;> decide

theorem ReturnType.ofJson?_name (t : ReturnType) : ReturnType.ofJson? (.text t.name) = some t := by
  cases t <;> rfl

/-- The numbers among the operands of an instruction. -/
def Instruction.floats (i : Instruction) : List Binary32 := i.operands.filterMap Operand.float?

theorem Instruction.writable_toJson (i : Instruction) : i.toJson.Writable := by
  have hdest : (Json.ofOption Register.toJson i.dest).Writable := by
    cases i.dest with
    | none => exact .null
    | some r => exact writable_ofNat _
  refine writable_object ?_
  simp only [List.forall_mem_cons]
  exact ⟨.text _, hdest, writable_list fun o _ => o.writable_toJson, nofun⟩

theorem optional?_dest (dest : Option Register) :
    optional? Register.ofJson? (.ofOption Register.toJson dest) = some dest := by
  cases dest with
  | none => rfl
  | some r =>
      change (Register.ofJson? r.toJson).map some = _
      rw [r.ofJson?_toJson, Option.map_some]

/-- An instruction is put together from the readings of its fields. -/
theorem Instruction.ofJson?_of_record {v : Json} {i : Instruction} {isPositional : Bool}
    {opcode dest operands : Option Json} {p : Prop} [Decidable p]
    (hrecord : record? ["opcode", "dest", "operands"] v =
      some ⟨isPositional, [opcode, dest, operands]⟩)
    (hopcode : required? Opcode.ofJson? opcode = some i.opcode)
    (hdest : destination? isPositional dest = some i.dest)
    (hoperands : required? (list? Operand.ofJson?) operands =
      if p then some i.operands else none) :
    Instruction.ofJson? v = if p then some i else none := by
  simp only [Instruction.ofJson?, hrecord, hopcode, hdest, hoperands, Option.bind_eq_bind,
    Option.bind_some]
  split <;> rfl

theorem Instruction.ofJson?_toJson (i : Instruction) :
    Instruction.ofJson? i.toJson = if ∀ x ∈ i.floats, x.isFinite then some i else none := by
  have hoperands : list? Operand.ofJson? (.arr (i.operands.map Operand.toJson)) =
      if ∀ o ∈ i.operands, ∀ x ∈ o.float?, x.isFinite then some i.operands else none :=
    list?_map fun o _ => o.ofJson?_toJson
  simp only [Instruction.floats, List.forall_mem_filterMap]
  exact ofJson?_of_record (record?_object rfl (by decide))
    (required?_some (Opcode.ofJson?_name _)) (optional?_dest _) hoperands

theorem Block.writable_toJson (b : Block) : b.toJson.Writable :=
  writable_object (List.forall_mem_singleton.mpr (writable_list fun i _ => i.writable_toJson))

theorem Block.ofJson?_toJson (b : Block) :
    Block.ofJson? b.toJson = if ∀ i ∈ b, ∀ x ∈ i.floats, x.isFinite then some b else none := by
  have hrecord : record? ["instructions"] b.toJson = some ⟨false, _⟩ :=
    record?_object rfl (by decide)
  have hinstructions : list? Instruction.ofJson? (.arr (b.map Instruction.toJson)) =
      if ∀ i ∈ b, ∀ x ∈ i.floats, x.isFinite then some b else none :=
    list?_map fun i _ => i.ofJson?_toJson
  simp only [Block.ofJson?, hrecord, List.map_cons, List.map_nil, Option.bind_eq_bind,
    Option.bind_some, required?, hinstructions]

/-! ## Functions and modules -/

/-- The numbers among the operands of a function. -/
def Function.floats (f : Function) : List Binary32 :=
  f.blocks.flatMap fun b => b.flatMap Instruction.floats

/-- The numbers among the operands of a module. -/
def Module.floats (m : Module) : List Binary32 := m.functions.flatMap Function.floats

theorem Function.writable_toJson (f : Function) : f.toJson.Writable := by
  refine writable_object ?_
  simp only [List.forall_mem_cons]
  exact ⟨.text _, writable_ofNat _, writable_ofNat _, writable_list fun b _ => b.writable_toJson,
    .text _, nofun⟩

/-- A function is put together from the readings of its fields. -/
theorem Function.ofJson?_of_record {v : Json} {f : Function} {isPositional : Bool}
    {name params locals blocks returns : Option Json} {p : Prop} [Decidable p]
    (hrecord : record? ["name", "num_params", "num_locals", "blocks", "return_type"] v =
      some ⟨isPositional, [name, params, locals, blocks, returns]⟩)
    (hname : required? text? name = some f.name)
    (hparams : required? count64? params = some f.params)
    (hlocals : required? count64? locals = some f.locals)
    (hblocks : required? (list? Block.ofJson?) blocks = if p then some f.blocks else none)
    (hreturns : required? ReturnType.ofJson? returns = some f.returns) :
    Function.ofJson? v = if p then some f else none := by
  simp only [Function.ofJson?, hrecord, hname, hparams, hlocals, hblocks, hreturns,
    Option.bind_eq_bind, Option.bind_some]
  split <;> rfl

theorem Function.ofJson?_toJson (f : Function) :
    Function.ofJson? f.toJson = if ∀ x ∈ f.floats, x.isFinite then some f else none := by
  have hblocks : list? Block.ofJson? (.arr (f.blocks.map Block.toJson)) =
      if ∀ b ∈ f.blocks, ∀ i ∈ b, ∀ x ∈ i.floats, x.isFinite then some f.blocks else none :=
    list?_map fun b _ => Block.ofJson?_toJson b
  simp only [Function.floats, List.forall_mem_flatMap]
  exact ofJson?_of_record (record?_object rfl (by decide)) rfl
    (required?_some (count64?_ofNat _)) (required?_some (count64?_ofNat _)) hblocks
    (required?_some (ReturnType.ofJson?_name _))

theorem Module.writable_toJson (m : Module) : m.toJson.Writable := by
  refine writable_object ?_
  simp only [List.forall_mem_cons]
  exact ⟨.text _, writable_list fun f _ => f.writable_toJson, writable_ofNat _, writable_ofNat _,
    writable_list fun s _ => .text s, nofun⟩

/-- A module is put together from the readings of its fields. -/
theorem Module.ofJson?_of_record {v : Json} {m : Module} {isPositional : Bool}
    {name functions memory version switches : Option Json} {p : Prop} [Decidable p]
    (hrecord : record? ["name", "functions", "memory_size", "version", "switches"] v =
      some ⟨isPositional, [name, functions, memory, version, switches]⟩)
    (hname : required? text? name = some m.name)
    (hfunctions : required? (list? Function.ofJson?) functions =
      if p then some m.functions else none)
    (hmemory : required? count64? memory = some m.memoryWords)
    (hversion : required? index32? version = some m.version)
    (hswitches : defaulted? (list? text?) [] switches = some m.switches) :
    Module.ofJson? v = if p then some m else none := by
  simp only [Module.ofJson?, hrecord, hname, hfunctions, hmemory, hversion, hswitches,
    Option.bind_eq_bind, Option.bind_some]
  split <;> rfl

theorem Module.ofJson?_toJson (m : Module) :
    Module.ofJson? m.toJson = if ∀ x ∈ m.floats, x.isFinite then some m else none := by
  have hfunctions : list? Function.ofJson? (.arr (m.functions.map Function.toJson)) =
      if ∀ f ∈ m.functions, ∀ x ∈ f.floats, x.isFinite then some m.functions else none :=
    list?_map fun f _ => f.ofJson?_toJson
  have hswitches : list? text? (.arr (m.switches.map Json.text)) = some m.switches := by
    rw [list?, mapM_map_eq_some (g := Json.text) (k := id) fun _ _ => rfl, List.map_id]
  simp only [Module.floats, List.forall_mem_flatMap]
  exact ofJson?_of_record (record?_object rfl (by decide)) rfl hfunctions
    (required?_some (count64?_ofNat _)) (required?_some (index32?_ofNat _)) hswitches

/-- The text of a module is read as this module if its numbers are finite, and otherwise not at
all. -/
theorem Module.ofJsonText?_toJsonText (m : Module) :
    Module.ofJsonText? m.toJsonText = if ∀ x ∈ m.floats, x.isFinite then some m else none := by
  rw [Module.ofJsonText?, Module.toJsonText, m.writable_toJson.parse?_render, Option.bind_some,
    Module.ofJson?_toJson]

/-- A module survives being written as a text and read again exactly if all of its numbers are
finite, whatever its names, counts, lists and operands are. -/
theorem Module.survives_json_iff (m : Module) :
    Module.ofJsonText? m.toJsonText = some m ↔ ∀ x ∈ m.floats, x.isFinite := by
  rw [Module.ofJsonText?_toJsonText]
  split
  · next h => exact iff_of_true rfl h
  · next h => exact iff_of_false nofun h

end MutantGate
