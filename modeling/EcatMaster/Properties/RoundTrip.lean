import EcatMaster.Utils.Codec

/-! # `build_buf` and the readers

What `build_buf` collects comes back through the readers of the types of its fields, value by value,
and what the scratch buffer held before plays no part in it. The same holds of any list of values
written at any offset of any buffer that has room for it.
-/

namespace EcatMaster
set_option autoImplicit false
open ByteBuf

section Written
variable {vs : List Variant} {ts : List Tag} (hts : Typed vs ts) (buf : List UInt8) (off : ℕ)
include hts

theorem writeValues_offset : (writeValues vs (buf, off)).2 = off + width ts := by
  rw [writeValues_eq, putC, valueBytes_length hts]

theorem writeValues_frame (j : ℕ) (hj : j < off ∨ off + width ts ≤ j) :
    (writeValues vs (buf, off)).1[j]? = buf[j]? := by
  rw [writeValues_eq]
  refine put_getElem?_outside buf off (valueBytes vs) j ?_
  rwa [valueBytes_length hts]

theorem readValues_writeValues (hfit : off + width ts ≤ buf.length) :
    readValues (writeValues vs (buf, off)).1 ts off = (vs, (writeValues vs (buf, off)).2) := by
  rw [writeValues_offset hts, writeValues_eq]
  refine readValues_of_bytesAt hts (bytesAt_put ?_)
  rwa [valueBytes_length hts]

end Written

namespace ConfigurationParser

/-- `build_buf` writes the values of its fields into a cleared buffer. -/
theorem buildBuf_eq (self : ConfigurationParser) {pfx : String} {names : List String}
    {vs : List Variant} (h : List.Forall₂ (fun name v => self.fields (pfx ++ name) = some v) names vs) :
    self.buildBuf pfx names = .ok (writeValues vs (List.replicate 1024 0, 0),
      { self with
        tempBuf := (writeValues vs (List.replicate 1024 0, 0)).1
        offset := (writeValues vs (List.replicate 1024 0, 0)).2 }) := by
  have hvalues := fieldValues_eq_ok.mpr h
  unfold buildBuf
  rw [buildFields_eq, hvalues, writeValues_eq]
  rfl

end ConfigurationParser

/-- **Round trip.** For fields of numeric types that fit into the scratch buffer, `build_buf` returns
their width, the readers return the values, every byte behind them is 0, and the result is the same
for every earlier content of the scratch buffer. A list of values written anywhere changes only the
bytes it covers, and the readers return it and end where the writers did. -/
theorem buildBuf_roundTrip :
    (∀ (cfg : ConfigurationParser) (pfx : String) (names : List String) (vs : List Variant)
      (ts : List Tag),
      List.Forall₂ (fun name v => cfg.fields (pfx ++ name) = some v) names vs → Typed vs ts →
      width ts ≤ 1024 →
      ∃ buf, buf.length = 1024 ∧
        (∀ tempBuf offset, ∃ after : ConfigurationParser,
          ({ cfg with tempBuf, offset } : ConfigurationParser).buildBuf pfx names =
            .ok ((buf, width ts), after) ∧
          after.tempBuf = buf ∧ after.offset = width ts ∧ after.fields = cfg.fields) ∧
        readValues buf ts 0 = (vs, width ts) ∧
        ∀ j, width ts ≤ j → byteAt buf j = 0) ∧
    ∀ (vs : List Variant) (ts : List Tag) (buf : List UInt8) (off : ℕ),
      Typed vs ts → off + width ts ≤ buf.length →
      (writeValues vs (buf, off)).1.length = buf.length ∧
      (∀ j, j < off ∨ off + width ts ≤ j → (writeValues vs (buf, off)).1[j]? = buf[j]?) ∧
      readValues (writeValues vs (buf, off)).1 ts off = (vs, (writeValues vs (buf, off)).2) := by
  refine ⟨fun cfg pfx names vs ts hvs hts hfit => ?_, fun vs ts buf off hts hfit => ?_⟩
  · have hfit : 0 + width ts ≤ (List.replicate 1024 (0 : UInt8)).length := by
      rw [List.length_replicate]
      omega
    have hoff : (writeValues vs (List.replicate 1024 0, 0)).2 = width ts := by
      rw [writeValues_offset hts, Nat.zero_add]
    refine ⟨(writeValues vs (List.replicate 1024 0, 0)).1, ?_, fun tempBuf offset => ?_, ?_, ?_⟩
    · rw [writeValues_eq, putC, put_length, List.length_replicate]
    · have hbuild :=
        ConfigurationParser.buildBuf_eq { cfg with tempBuf := tempBuf, offset := offset } hvs
      rw [← hoff]
      exact ⟨_, hbuild, rfl, rfl, rfl⟩
    · rw [readValues_writeValues hts _ _ hfit, hoff]
    · intro j hj
      have hframe := writeValues_frame hts (List.replicate 1024 0) 0 j (Or.inr (by omega))
      rw [byteAt, List.getD_eq_getElem?_getD, hframe, List.getElem?_replicate]
      split <;> rfl
  · refine ⟨?_, writeValues_frame hts buf off, readValues_writeValues hts buf off hfit⟩
    rw [writeValues_eq, putC, put_length]

/-- A store with a signed byte and a word. -/
def trimConfig : ConfigurationParser :=
  ConfigurationParser.new |>.set "trim_low" (.int8 (-3)) |>.set "trim_high" (.uint16 500)

theorem buildBuf_roundTrip_trim : ∃ buf after,
    trimConfig.buildBuf "trim_" ["low", "high"] = .ok ((buf, 3), after) ∧
      readValues buf [.int8, .uint16] 0 = ([.int8 (-3), .uint16 500], 3) := by
  obtain ⟨buf, -, hbuild, hread, -⟩ := buildBuf_roundTrip.1 trimConfig "trim_" ["low", "high"]
    [.int8 (-3), .uint16 500] [.int8, .uint16] (.cons (by decide) (.cons (by decide) .nil))
    (.cons rfl (.cons rfl .nil)) (by decide)
  obtain ⟨after, hafter, -⟩ := hbuild trimConfig.tempBuf trimConfig.offset
  exact ⟨buf, after, hafter, hread⟩

end EcatMaster
