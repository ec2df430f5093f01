import MutantGate.IR.BinaryForm
import MutantGate.Proofs.ExactFormats
import MutantGate.Proofs.PipelineSuccess
/-!
# Modules in binary form

The binary form of a module is exact from the constants up to the whole module, so that
reading and writing modules are inverse to each other and no module has a second form.

## What is proved

For every module and all bytes: a module is read exactly from those bytes that start with its own,
reading takes away its own bytes and no others, two modules with a binary form that have the same
bytes are the same, and no module is read from a part of its bytes that stops short.  All of this
holds for modules whose texts and lists have lengths below `256 ^ 8`, and what is read is such a
module.

## What is left outside

The layout of numbers, lists and texts (`Binary.Format`) is taken as the format of the file says it
to be; there is nothing here that it could be compared with.  How much memory a reader uses that
meets a great length is not described.
-/

namespace MutantGate

open Binary Format

/-! ## Constants and operands -/

theorem Register.format_exact : Register.format.Exact :=
  byte_exact.convert (fun _ => rfl) fun _ _ => rfl

theorem wordFormat_exact : wordFormat.Exact :=
  ((fixed_exactOn 4).convert (fun w => BitVec.eq_of_toNat_eq (by simp)) fun n hn => by
    rw [BitVec.toNat_ofNat]
    omega).congr fun w => iff_true_intro w.isLt

theorem Binary32.format_exact : Binary32.format.Exact :=
  word32_exact.convert (fun _ => rfl) fun _ _ => rfl

theorem Opcode.format_exact : Opcode.format.Exact :=
  oneOf_exact (by decide) (by decide) fun o => by cases o <;> decide

theorem ReturnType.format_exact : ReturnType.format.Exact :=
  oneOf_exact (by decide) (by decide) fun t => by cases t <;> decide

theorem Value.format_exact : Value.format.Exact := by
  have hchoice : (choice 3).ExactOn (· < 3) := choice_exactOn (by decide)
  intro bs v rest
  constructor
  · intro hread
    obtain ⟨⟨kind, bs'⟩, hkind, hvalue⟩ := bind_eq_ok.mp hread
    obtain ⟨hlt, rfl⟩ := (hchoice _ _ _).mp hkind
    refine ⟨trivial, ?_⟩
    obtain rfl | rfl | rfl : kind = 0 ∨ kind = 1 ∨ kind = 2 := by omega
    · obtain ⟨w, -, rfl, rfl⟩ := wordFormat_exact.map_read_eq_ok_iff.mp hvalue
      rw [Value.format, List.append_assoc]
    · obtain ⟨x, -, rfl, rfl⟩ := Binary32.format_exact.map_read_eq_ok_iff.mp hvalue
      rw [Value.format, List.append_assoc]
    · obtain ⟨t, -, rfl, rfl⟩ := truth_exact.map_read_eq_ok_iff.mp hvalue
      rw [Value.format, List.append_assoc]
  · rintro ⟨-, rfl⟩
    cases v with
    | int w =>
        exact hchoice.read_behind (by decide) wordFormat_exact (fun _ => rfl) w rest
    | float x =>
        exact hchoice.read_behind (by decide) Binary32.format_exact (fun _ => rfl) x rest
    | bool t =>
        exact hchoice.read_behind (by decide) truth_exact (fun _ => rfl) t rest

theorem Operand.format_exact : Operand.format.Exact := by
  have hchoice : (choice 5).ExactOn (· < 5) := choice_exactOn (by decide)
  intro bs o rest
  constructor
  · intro hread
    obtain ⟨⟨kind, bs'⟩, hkind, hoperand⟩ := bind_eq_ok.mp hread
    obtain ⟨hlt, rfl⟩ := (hchoice _ _ _).mp hkind
    refine ⟨trivial, ?_⟩
    obtain rfl | rfl | rfl | rfl | rfl :
        kind = 0 ∨ kind = 1 ∨ kind = 2 ∨ kind = 3 ∨ kind = 4 := by omega
    · obtain ⟨r, -, rfl, rfl⟩ := Register.format_exact.map_read_eq_ok_iff.mp hoperand
      rw [Operand.format, List.append_assoc]
    · obtain ⟨v, -, rfl, rfl⟩ := Value.format_exact.map_read_eq_ok_iff.mp hoperand
      rw [Operand.format, List.append_assoc]
    · obtain ⟨i, -, rfl, rfl⟩ := word32_exact.map_read_eq_ok_iff.mp hoperand
      rw [Operand.format, List.append_assoc]
    · obtain ⟨i, -, rfl, rfl⟩ := word32_exact.map_read_eq_ok_iff.mp hoperand
      rw [Operand.format, List.append_assoc]
    · obtain ⟨i, -, rfl, rfl⟩ := word32_exact.map_read_eq_ok_iff.mp hoperand
      rw [Operand.format, List.append_assoc]
  · rintro ⟨-, rfl⟩
    cases o with
    | register r =>
        exact hchoice.read_behind (by decide) Register.format_exact (fun _ => rfl) r rest
    | immediate v =>
        exact hchoice.read_behind (by decide) Value.format_exact (fun _ => rfl) v rest
    | block i | function i | switch i =>
        exact hchoice.read_behind (by decide) word32_exact (fun _ => rfl) i rest

/-! ## Functions and modules -/

/-- The lengths of the texts and lists of a function fit into the eight bytes kept for each. -/
structure Function.LengthsFit (f : Function) : Prop where
  name : (Utf8.encode f.name).length < 256 ^ 8
  blocks : f.blocks.length < 256 ^ 8
  instructions : ∀ b ∈ f.blocks, b.length < 256 ^ 8
  operands : ∀ b ∈ f.blocks, ∀ i ∈ b, i.operands.length < 256 ^ 8

/-- The lengths of the texts and lists of a module fit into the eight bytes kept for each. -/
structure Module.LengthsFit (m : Module) : Prop where
  name : (Utf8.encode m.name).length < 256 ^ 8
  functions : m.functions.length < 256 ^ 8
  function : ∀ f ∈ m.functions, f.LengthsFit
  switches : m.switches.length < 256 ^ 8
  switch : ∀ s ∈ m.switches, (Utf8.encode s).length < 256 ^ 8

instance (f : Function) : Decidable f.LengthsFit :=
  decidable_of_iff (_ ∧ _ ∧ _ ∧ _)
    ⟨fun ⟨name, blocks, instructions, operands⟩ => ⟨name, blocks, instructions, operands⟩,
      fun ⟨name, blocks, instructions, operands⟩ => ⟨name, blocks, instructions, operands⟩⟩

instance (m : Module) : Decidable m.LengthsFit :=
  decidable_of_iff (_ ∧ _ ∧ _ ∧ _ ∧ _)
    ⟨fun ⟨name, functions, function, switches, switch⟩ =>
        ⟨name, functions, function, switches, switch⟩,
      fun ⟨name, functions, function, switches, switch⟩ =>
        ⟨name, functions, function, switches, switch⟩⟩

theorem Instruction.format_exactOn :
    Instruction.format.ExactOn fun i => i.operands.length < 256 ^ 8 := by
  have hparts := Opcode.format_exact.both
    ((Register.format_exact.optional).both Operand.format_exact.list)
  exact (hparts.convert (fun _ => rfl) fun _ _ => rfl).congr fun i => by simp

theorem Function.format_exactOn : Function.format.ExactOn Function.LengthsFit := by
  have hparts := text_exactOn.both (word64_exact.both (word64_exact.both
    (Instruction.format_exactOn.list.list.both ReturnType.format_exact)))
  have hformat : Function.format.ExactOn _ := hparts.convert (fun _ => rfl) fun _ _ => rfl
  refine hformat.congr fun f => ⟨?_, ?_⟩
  · rintro ⟨hname, -, -, ⟨hblocks, hblock⟩, -⟩
    exact ⟨hname, hblocks, fun b hb => (hblock b hb).1, fun b hb => (hblock b hb).2⟩
  · rintro ⟨hname, hblocks, hinstructions, hoperands⟩
    exact ⟨hname, trivial, trivial,
      ⟨hblocks, fun b hb => ⟨hinstructions b hb, hoperands b hb⟩⟩, trivial⟩

theorem Module.format_exactOn : Module.format.ExactOn Module.LengthsFit := by
  have hparts := text_exactOn.both (Function.format_exactOn.list.both
    (word64_exact.both (word32_exact.both text_exactOn.list)))
  have hformat : Module.format.ExactOn _ := hparts.convert (fun _ => rfl) fun _ _ => rfl
  refine hformat.congr fun m => ⟨?_, ?_⟩
  · rintro ⟨hname, ⟨hfunctions, hfunction⟩, -, -, hswitches, hswitch⟩
    exact ⟨hname, hfunctions, hfunction, hswitches, hswitch⟩
  · rintro ⟨hname, hfunctions, hfunction, hswitches, hswitch⟩
    exact ⟨hname, ⟨hfunctions, hfunction⟩, trivial, trivial, hswitches, hswitch⟩

/-- The modules that are read are those whose bytes stand at the start. -/
theorem Module.ofBytes_eq_ok_iff {bs : List UInt8} {m : Module} :
    Module.ofBytes bs = .ok m ↔ m.LengthsFit ∧ m.toBytes <+: bs := by
  constructor
  · intro h
    obtain ⟨⟨m', rest⟩, hread, rfl⟩ := map_eq_ok.mp h
    obtain ⟨hfit, rfl⟩ := (Module.format_exactOn _ _ _).mp hread
    exact ⟨hfit, rest, rfl⟩
  · rintro ⟨hfit, rest, rfl⟩
    exact map_eq_ok.mpr ⟨(m, rest), Module.format_exactOn.read_append hfit rest, rfl⟩

section

variable {m m' : Module} {bs : List UInt8}

theorem Module.LengthsFit.ofBytes_toBytes (h : m.LengthsFit) :
    Module.ofBytes m.toBytes = .ok m :=
  Module.ofBytes_eq_ok_iff.mpr ⟨h, List.prefix_rfl⟩

theorem Module.LengthsFit.toBytes_inj (h : m.LengthsFit) (h' : m'.LengthsFit)
    (hbytes : m.toBytes = m'.toBytes) : m = m' := by
  have hread := h.ofBytes_toBytes
  rw [hbytes, h'.ofBytes_toBytes] at hread
  exact (Except.ok.inj hread).symm

/-- A module read from the front of the bytes of another one is that other one. -/
theorem Module.LengthsFit.eq_toBytes_of_prefix (h : m.LengthsFit) (hbs : bs <+: m.toBytes)
    (hread : Module.ofBytes bs = .ok m') : bs = m.toBytes := by
  obtain ⟨hfit, hprefix⟩ := Module.ofBytes_eq_ok_iff.mp hread
  have hsame : Module.ofBytes m.toBytes = .ok m' :=
    Module.ofBytes_eq_ok_iff.mpr ⟨hfit, hprefix.trans hbs⟩
  rw [h.ofBytes_toBytes] at hsame
  obtain rfl := Except.ok.inj hsame
  exact hbs.eq_of_length_le hprefix.length_le

end

/-- Reading and writing are inverse to each other.  A module is read exactly from the bytes that
start with its own, reading takes these and no others away, and what is read has lengths that
can be written.  So a module with such lengths is read back, two of them with the same bytes are
the same, and no module at all is read from a part of the bytes of one that stops short. -/
theorem Module.bytes_canonical (m : Module) :
    (∀ bs, Module.ofBytes bs = .ok m ↔ m.LengthsFit ∧ m.toBytes <+: bs) ∧
      (∀ bs rest, Module.format.read bs = .ok (m, rest) ↔
        m.LengthsFit ∧ bs = m.toBytes ++ rest) ∧
      (m.LengthsFit → Module.ofBytes m.toBytes = .ok m) ∧
      (∀ m' : Module, m.LengthsFit → m'.LengthsFit → m.toBytes = m'.toBytes → m = m') ∧
      ∀ bs, m.LengthsFit → bs <+: m.toBytes → bs ≠ m.toBytes →
        ∃ e, Module.ofBytes bs = .error e := by
  refine ⟨fun bs => Module.ofBytes_eq_ok_iff, fun bs rest => Module.format_exactOn _ _ _,
    fun h => h.ofBytes_toBytes, fun m' h h' => h.toBytes_inj h', fun bs h hbs hne => ?_⟩
  cases hread : Module.ofBytes bs with
  | error e => exact ⟨e, rfl⟩
  | ok m' => exact absurd (h.eq_toBytes_of_prefix hbs hread) hne

/-- The small module has lengths that can be written, is read back, and is not read without its
last byte. -/
theorem Module.bytes_canonical_doubling :
    doubling.LengthsFit ∧ Module.ofBytes doubling.toBytes = .ok doubling ∧
      ∃ e, Module.ofBytes doubling.toBytes.dropLast = .error e := by
  have hfit : doubling.LengthsFit := by decide
  obtain ⟨-, -, hback, -, hshort⟩ := Module.bytes_canonical doubling
  exact ⟨hfit, hback hfit, hshort _ hfit (List.dropLast_prefix _) (by decide +kernel)⟩

end MutantGate
