import GeneratorKit.Json.Decode

set_option autoImplicit false

/-!
# Decoding what was encoded

The fields of an object are found by their names (`decodeFields_record`), and lists, entries and optional values
are decoded from their forms when their parts are.
-/
namespace GeneratorKit.Json

variable {α : Type} {d : Decoder α} {encode : α → Json} {depth : Nat}

theorem decodeOption_ofOption (hnull : ∀ a, encode a ≠ .null) (h : ∀ a, d depth (encode a) = some a)
    (a : Option α) : decodeOption d depth (ofOption encode a) = some a := by
  cases a with
  | none => rfl
  | some a =>
    rw [ofOption, decodeOption, h a]
    · rfl
    · exact hnull a

theorem decodeOption_ofString (depth : Nat) (s : Option String) :
    decodeOption decodeString depth (ofOption ofString s) = some s :=
  decodeOption_ofOption (fun _ => Json.noConfusion) (fun _ => rfl) s

theorem mapM_map {β γ : Type} {f : β → γ} {g : γ → Option β} {bs : List β}
    (h : ∀ b ∈ bs, g (f b) = some b) : (bs.map f).mapM g = some bs := by
  induction bs with
  | nil => rfl
  | cons b bs ih =>
    have hb := h b List.mem_cons_self
    have hbs := ih fun c hc => h c (List.mem_cons_of_mem b hc)
    rw [List.map_cons, List.mapM_cons, hb, hbs]
    rfl

theorem decodeList_array {as : List α} (h : ∀ a ∈ as, d depth (encode a) = some a) :
    decodeList d (depth + 1) (.array (as.map encode)) = some as :=
  mapM_map h

theorem decodeEntries_record {es : List (String × α)} (h : ∀ e ∈ es, d depth (encode e.2) = some e.2) :
    decodeEntries d (depth + 1) (.record (es.map fun e => (e.1, encode e.2))) = some es := by
  rw [record, decodeEntries, List.map_map]
  refine mapM_map fun e he => ?_
  simp [h e he]

theorem decodeBelow_uint32 (depth : Nat) (n : UInt32) :
    decodeBelow 0x100000000 depth (.natural n.toNat) = some n.toNat :=
  if_pos n.toNat_lt

theorem decodeBelow_uint64 (depth : Nat) (n : UInt64) :
    decodeBelow 0x10000000000000000 depth (.natural n.toNat) = some n.toNat :=
  if_pos n.toNat_lt

section Fields
variable (fields : List (String × Json)) (n : String)

theorem find?_record : ((fields.map fun f => (some f.1, f.2)).find? (·.1 = some n)).map (·.2) =
    fields.lookup n := by
  induction fields with
  | nil => rfl
  | cons f fields ih =>
    by_cases hk : f.1 = n
    · rw [List.map_cons, List.find?_cons_of_pos (by simpa using hk), List.lookup_cons, hk, beq_self_eq_true]
      rfl
    · rw [List.map_cons, List.find?_cons_of_neg (by simpa using hk), ih, List.lookup_cons,
        beq_eq_false_iff_ne.2 (Ne.symm hk)]

theorem countP_record : (fields.map fun f => (some f.1, f.2)).countP (·.1 = some n) =
    (fields.map Prod.fst).count n := by
  rw [List.countP_map, List.count_eq_countP, List.countP_map]
  exact List.countP_congr fun f _ => by simp

end Fields

/-- The fields of an object without double names are those of the given names. -/
theorem decodeFields_record (names : List String) (spare : Nat) {fields : List (String × Json)}
    (h : (fields.map Prod.fst).Nodup) :
    decodeFields names spare (.record fields) = some (names.map fun n => fields.lookup n) := by
  rw [record, decodeFields, if_pos]
  · exact congrArg some (List.map_congr_left fun n _ => find?_record fields n)
  · refine ⟨?_, ?_⟩
    · simp
    · refine List.all_eq_true.2 fun n _ => decide_eq_true ?_
      rw [countP_record]
      exact List.nodup_iff_count.1 h n

end GeneratorKit.Json
