import MutantGate.Proofs.JsonSizes
import MutantGate.Proofs.Utf8
import MutantGate.Storage.ModuleFile
/-!
# Saved modules

A module that was loaded from any file can be saved in binary form and loaded again.  As a JSON
file it is saved as well, but JSON has no numbers that are not finite: each of them is written as
null, and then the file that was just saved is refused.  Such numbers come from binary files and
from JSON numbers beyond the range of single precision.

## What is proved

For a module that was loaded from any bytes, fewer than `256 ^ 8` of them, and for every target
path: loading what is saved gives the module, unless the path is one of a JSON file and some number
in the module is not finite; then it gives a refusal.  So the condition is exact, and a module is
given that fails it.

## What is left outside

Writing to the file itself: what is loaded is the bytes that were made, and a file that cannot be
written is a matter of `Proofs.RunFailures`.  Modules that were not loaded may have lengths that
have no binary form (`Proofs.BinaryModules`).
-/

namespace MutantGate

open Binary.Format

variable {m : Module} {version : UInt32} {path : String} {bytes : List UInt8}

/-! ## Forms -/

theorem mapError_eq_ok {ε ε' α : Type} {x : Except ε α} {f : ε → ε'} {a : α} :
    x.mapError f = .ok a ↔ x = .ok a := by
  cases x <;> simp [Except.mapError]

theorem Module.decode_json_eq_ok_iff :
    Module.decode .json bytes = .ok m ↔
      ∃ text, bytes = Utf8.encode text ∧ Module.ofJsonText? text = some m := by
  have htext (text : String) :
      Module.ofJsonText text = .ok m ↔ Module.ofJsonText? text = some m := by
    rw [Module.ofJsonText]
    split
    · next h => rw [h, Except.ok.injEq, Option.some_inj]
    · next h => rw [h]; exact iff_of_false nofun nofun
  simp only [Module.decode, bind_eq_ok, mapError_eq_ok, Utf8.decode_eq_ok_iff, htext]

theorem Module.decode_binary_eq_ok_iff :
    Module.decode .binary bytes = .ok m ↔ m.LengthsFit ∧ m.toBytes <+: bytes := by
  rw [Module.decode, mapError_eq_ok, Module.ofBinary, mapError_eq_ok, Module.ofBytes_eq_ok_iff]

/-- What is decoded has a binary form, if its lists and texts cannot be longer than it can say. -/
theorem Module.lengthsFit_of_decode {form : ModuleForm} (hlength : bytes.length < 256 ^ 8)
    (h : Module.decode form bytes = .ok m) : m.LengthsFit := by
  cases form with
  | json =>
      obtain ⟨text, rfl, hread⟩ := Module.decode_json_eq_ok_iff.mp h
      exact Module.lengthsFit_of_ofJsonText? hread hlength
  | binary => exact (Module.decode_binary_eq_ok_iff.mp h).1

/-- A module in JSON form is decoded if its numbers are finite. -/
theorem Module.decode_json_encode (m : Module) :
    Module.decode .json (m.encode .json) =
      if ∃ x ∈ m.floats, x.isFinite = false then .error (.malformed .json) else .ok m := by
  have hread := m.ofJsonText?_toJsonText
  split
  · next hlost =>
      have hnone : Module.ofJsonText? m.toJsonText = none := by
        rw [hread, if_neg]
        rintro hfinite
        obtain ⟨x, hx, hlost⟩ := hlost
        rw [hfinite x hx] at hlost
        cases hlost
      have htext : Utf8.decode (m.encode .json) = .ok m.toJsonText :=
        Utf8.decode_eq_ok_iff.mpr rfl
      have hmalformed : Module.ofJsonText m.toJsonText = .error .json := by
        rw [Module.ofJsonText, hnone]
      rw [Module.decode, htext]
      exact congrArg (Except.mapError LoadObstacle.malformed) hmalformed
  · next hkept =>
      refine Module.decode_json_eq_ok_iff.mpr ⟨m.toJsonText, rfl, ?_⟩
      rw [hread, if_pos]
      exact fun x hx => Bool.of_not_eq_false fun h => hkept ⟨x, hx, h⟩

theorem Module.LengthsFit.decode_binary_encode (h : m.LengthsFit) :
    Module.decode .binary (m.encode .binary) = .ok m :=
  Module.decode_binary_eq_ok_iff.mpr ⟨h, List.prefix_rfl⟩

/-! ## Files -/

theorem Module.load_eq_ok_iff :
    Module.load version path (.ok bytes) = .ok m ↔
      Module.decode (.ofPath path) bytes = .ok m ∧ m.version = version := by
  have hbytes : (Except.ok bytes : Except FileFault _).mapError LoadObstacle.unreadable =
      .ok bytes := rfl
  simp only [Module.load, hbytes, bind_eq_ok, Except.ok.injEq, exists_eq_left']
  constructor
  · rintro ⟨m', hdecode, hversion⟩
    split at hversion
    · next h =>
        obtain rfl := Except.ok.inj hversion
        exact ⟨hdecode, h⟩
    · cases hversion
  · rintro ⟨hdecode, hversion⟩
    exact ⟨m, hdecode, if_pos hversion⟩

theorem Module.load_eq_error {o : LoadObstacle}
    (h : Module.decode (.ofPath path) bytes = .error o) :
    Module.load version path (.ok bytes) = .error o := by
  have hbytes : (Except.ok bytes : Except FileFault _).mapError LoadObstacle.unreadable =
      .ok bytes := rfl
  rw [Module.load, hbytes]
  change (Module.decode (.ofPath path) bytes >>= _) = _
  rw [h]
  rfl

/-- A module that was loaded is saved under any path and loaded again as it was, unless the path is
one of a JSON file and a number in the module is not finite; then the saved file is refused. -/
theorem Module.load_saved (hlength : bytes.length < 256 ^ 8)
    (hload : Module.load version path (.ok bytes) = .ok m) (target : String) :
    Module.load version target (.ok (m.encode (.ofPath target))) =
      if Path.isJson target = true ∧ ∃ x ∈ m.floats, x.isFinite = false then
        .error (.malformed .json)
      else .ok m := by
  obtain ⟨hdecode, hversion⟩ := Module.load_eq_ok_iff.mp hload
  have hfit := Module.lengthsFit_of_decode hlength hdecode
  by_cases hjson : Path.isJson target = true
  · have hform : ModuleForm.ofPath target = .json := if_pos hjson
    simp only [hjson, true_and]
    split
    · next hlost => exact Module.load_eq_error (by rw [hform, m.decode_json_encode, if_pos hlost])
    · next hkept =>
        refine Module.load_eq_ok_iff.mpr ⟨?_, hversion⟩
        rw [hform, m.decode_json_encode, if_neg hkept]
  · have hform : ModuleForm.ofPath target = .binary := if_neg hjson
    rw [if_neg fun h => hjson h.1, Module.load_eq_ok_iff, hform]
    exact ⟨hfit.decode_binary_encode, hversion⟩

/-! ## A number that is not finite -/

/-- A function that returns infinity. -/
def endless : Module :=
  ⟨"endless", [⟨"main", 0, 1, [[⟨.const, some ⟨0⟩, [.immediate (.float ⟨0x7f800000⟩)]⟩,
    ⟨.ret, none, [.register ⟨0⟩]⟩]], .int⟩], 0, 1, []⟩

-- JSON has a number for the constant as well, `1e39`, which is beyond the range.
example : Numeral.toBinary32? ⟨false, [1], none, some (.implicit, [3, 9])⟩ =
    some ⟨0x7f800000⟩ := by decide +kernel

theorem endless_loaded : Module.load 1 "endless.bc" (.ok endless.toBytes) = .ok endless := by
  have hfit : endless.LengthsFit := by decide
  have hform : ModuleForm.ofPath "endless.bc" = .binary := by decide +kernel
  exact Module.load_eq_ok_iff.mpr ⟨by rw [hform]; exact hfit.decode_binary_encode, rfl⟩

/-- Infinity is loaded from a binary file and saved to one, but not to a JSON file. -/
theorem Module.load_saved_endless :
    endless.toBytes.length < 256 ^ 8 ∧
      Module.load 1 "endless.bc" (.ok endless.toBytes) = .ok endless ∧
      Module.load 1 "copy.bc" (.ok (endless.encode (.ofPath "copy.bc"))) = .ok endless ∧
      Module.load 1 "copy.JSON" (.ok (endless.encode (.ofPath "copy.JSON"))) =
        .error (.malformed .json) := by
  have hlength : endless.toBytes.length < 256 ^ 8 := by decide +kernel
  refine ⟨hlength, endless_loaded, ?_, ?_⟩
  · rw [Module.load_saved hlength endless_loaded, if_neg]
    decide +kernel
  · rw [Module.load_saved hlength endless_loaded, if_pos]
    decide +kernel

/-- So not every module that was loaded can be saved and loaded again. -/
theorem Module.saved_endless_refused :
    ¬ ∀ (version : UInt32) (path target : String) (bytes : List UInt8) (m : Module),
      Module.load version path (.ok bytes) = .ok m →
        Module.load version target (.ok (m.encode (.ofPath target))) = .ok m := by
  intro h
  have hback := h 1 "endless.bc" "copy.JSON" endless.toBytes endless endless_loaded
  have hform : ModuleForm.ofPath "copy.JSON" = .json := by decide +kernel
  rw [Module.load_eq_ok_iff, hform, Module.decode_json_encode, if_pos (by decide)] at hback
  cases hback.1

end MutantGate
