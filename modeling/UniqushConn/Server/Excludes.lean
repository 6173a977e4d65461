import UniqushConn.Server.Conn

/- The exclusion list of `CMD_REQ_ALL_CACHED`: the ids a peer sends, each ended by a
   NUL byte, in the body of the command's message.

   `cutString` finds the first NUL with a range loop that leaves `idx` at the last
   index when there is none, so its `idx < 0` test fails only on empty data, which
   the loop never passes it. A body of NUL-terminated ids `s₁ … sₖ` followed by a
   tail `t` with no NUL decodes to `s₁ … sₖ` and then, if `t` is not empty, to `t`
   without its last byte (`excludesOf_segments`): the tail is never rejected.

   For the same reason `cutString` never fails on the data the loop gives it, which
   is never empty, and always cuts a proper suffix off (`cutString_nonempty`). So the
   loop makes at most `len(body)` calls: `cutAllFor`, the loop allowed `n` calls, gives
   the loop's whole result from `n = len(body)` on (`excludes_loop_terminates`). -/
namespace UniqushConn.Server
open UniqushConn.Proto

/-- The body that ends each of `ids` with a NUL byte. -/
def nulTerminated (ids : List (List UInt8)) : List UInt8 := ids.flatMap (· ++ [0])

/-! ## `cutString` -/

/-- The range loop stops at the first NUL. -/
theorem rangeIdx_nul : ∀ (idx : Int) (i : Nat) {s : List UInt8} (r : List UInt8), 0 ∉ s →
    rangeIdx idx i (s ++ 0 :: r) = ((i + s.length : Nat) : Int)
  | _, i, [], _, _ => by simp [rangeIdx]
  | _, i, d :: s, r, h => by
    have hd : d ≠ 0 := fun hd => h (hd ▸ List.mem_cons_self _ _)
    rw [List.cons_append, rangeIdx.eq_2, if_neg hd,
      rangeIdx_nul i (i + 1) r (fun m => h (List.mem_cons_of_mem _ m)), List.length_cons]
    omega

/-- With no NUL, the range loop ends at the last index. -/
theorem rangeIdx_no_nul : ∀ (idx : Int) (i : Nat) {t : List UInt8}, 0 ∉ t → t ≠ [] →
    rangeIdx idx i t = ((i + t.length - 1 : Nat) : Int)
  | _, _, [], _, h => absurd rfl h
  | _, i, [d], h, _ => by simp [rangeIdx, fun hd : d = 0 => h (hd ▸ List.mem_singleton_self _)]
  | _, i, d :: d' :: t, h, _ => by
    have hd : d ≠ 0 := fun hd => h (hd ▸ List.mem_cons_self _ _)
    simp only [rangeIdx.eq_2 _ _ d, hd, if_false, List.length_cons]
    rw [rangeIdx_no_nul i (i + 1) (fun m => h (List.mem_cons_of_mem _ m)) (List.cons_ne_nil _ _)]
    simp only [List.length_cons]
    omega

/-- `cutString` cuts a NUL-terminated id off the front. -/
theorem cutString_nul {s : List UInt8} (r : List UInt8) (h : 0 ∉ s) :
    cutString (s ++ 0 :: r) = .ok (s, r) := by
  simp only [cutString, rangeIdx_nul (-1) 0 r h, Nat.zero_add]
  rw [if_neg (by omega)]
  simp [List.drop_append_eq_append_drop]

/-- `cutString` takes all but the last byte of data with no NUL, and leaves nothing. -/
theorem cutString_no_nul {t : List UInt8} (h : 0 ∉ t) (hne : t ≠ []) :
    cutString t = .ok (t.dropLast, []) := by
  simp only [cutString, rangeIdx_no_nul (-1) 0 h hne, Int.toNat_ofNat, Nat.zero_add]
  have hpos : 0 < t.length := List.length_pos.2 hne
  rw [if_neg (by omega), List.dropLast_eq_take, Nat.sub_add_cancel hpos, List.drop_length]

/-- The range loop over data that is not empty ends at an index. -/
theorem rangeIdx_nonneg : ∀ (idx : Int) (i : Nat) (l : List UInt8), 0 ≤ idx → 0 ≤ rangeIdx idx i l
  | _, _, [], h => h
  | _, i, d :: l, _ => by
    rw [rangeIdx.eq_2]
    split
    · omega
    · exact rangeIdx_nonneg _ _ l (by omega)

/-- **`cutString` on data that is not empty** never returns `ErrMalformedCommand`, and
the rest it returns is a proper suffix of the data. -/
theorem cutString_nonempty {data : List UInt8} (h : data ≠ []) :
    ∃ str rest, cutString data = .ok (str, rest) ∧ rest <:+ data ∧ rest.length < data.length := by
  obtain ⟨d, ds, rfl⟩ := List.exists_cons_of_ne_nil h
  have hi : 0 ≤ rangeIdx (-1) 0 (d :: ds) := by
    rw [rangeIdx.eq_2]
    split
    · omega
    · exact rangeIdx_nonneg _ _ ds (by omega)
  refine ⟨_, _, by rw [cutString, if_neg (not_lt.2 hi)], List.drop_suffix _ _, ?_⟩
  simp only [List.length_drop, List.length_cons]
  omega

/-! ## The loop -/

theorem cutAll_nil : cutAll [] = [] := by
  rw [cutAll]; rfl

/-- One turn of the loop: the id cut off, then the loop on the rest. -/
theorem cutAll_of_ok {data str rest : List UInt8} (hne : 0 < data.length)
    (h : cutString data = .ok (str, rest)) : cutAll data = ofBytes str :: cutAll rest := by
  rw [cutAll, dif_pos hne]
  split <;> rename_i hc <;> rw [h] at hc <;> cases hc
  rfl

theorem cutAll_nul {s : List UInt8} (r : List UInt8) (h : 0 ∉ s) :
    cutAll (s ++ 0 :: r) = ofBytes s :: cutAll r :=
  cutAll_of_ok (by simp only [List.length_append, List.length_cons]; omega) (cutString_nul r h)

theorem cutAll_no_nul {t : List UInt8} (h : 0 ∉ t) (hne : t ≠ []) :
    cutAll t = [ofBytes t.dropLast] := by
  rw [cutAll, dif_pos (List.length_pos.2 hne)]
  split <;> rename_i hc <;> rw [cutString_no_nul h hne] at hc <;> cases hc
  rw [cutAll_nil]

/-- The loop decodes NUL-terminated ids, then all but the last byte of a tail. -/
theorem cutAll_segments (t : List UInt8) (ht : 0 ∉ t) :
    ∀ ids : List (List UInt8), (∀ s ∈ ids, 0 ∉ s) →
      cutAll (nulTerminated ids ++ t) =
        ids.map ofBytes ++ if t = [] then [] else [ofBytes t.dropLast]
  | [], _ => by
    by_cases hne : t = []
    · simp [nulTerminated, hne, cutAll_nil]
    · simp [nulTerminated, hne, cutAll_no_nul ht hne]
  | s :: ids, h => by
    have hs := h s (List.mem_cons_self _ _)
    have hrest := cutAll_segments t ht ids fun s' m => h s' (List.mem_cons_of_mem _ m)
    simp only [nulTerminated, List.flatMap_cons, List.append_assoc, List.cons_append,
      List.nil_append, List.map_cons] at hrest ⊢
    rw [cutAll_nul _ hs, hrest]

/-- **The exclusion list.** For a message whose body is the NUL-terminated ids
`ids` followed by a tail `t` with no NUL, the exclusion list of `CMD_REQ_ALL_CACHED`
is `ids`, followed, when `t` is not empty, by `t` without its last byte. -/
theorem excludesOf_segments (type : CmdType) (params : List String) (m : Message)
    (ids : List (List UInt8)) (t : List UInt8) (hids : ∀ s ∈ ids, 0 ∉ s) (ht : 0 ∉ t)
    (hb : m.body = nulTerminated ids ++ t) :
    excludesOf ⟨type, params, some m⟩ = ids.map ofBytes ++ if t = [] then [] else [ofBytes t.dropLast] := by
  simp only [excludesOf]
  split
  · rw [hb, cutAll_segments t ht ids hids]
  · rename_i hlen
    have hnil : m.body = [] := List.length_eq_zero.1 (by omega)
    rw [hb] at hnil
    obtain ⟨h₁, rfl⟩ := List.append_eq_nil.1 hnil
    have : ids = [] := by
      cases ids with
      | nil => rfl
      | cons s ids => simp [nulTerminated] at h₁
    simp [this]

/-- The body "ab\x00cd" gives the exclusion list ["ab", "c"]. -/
theorem excludesOf_unterminated :
    (∀ s ∈ [[97, 98]], (0 : UInt8) ∉ s) ∧ (0 : UInt8) ∉ [99, 100] ∧
    excludesOf ⟨.cmdReqAllCached, [], some { body := [97, 98, 0, 99, 100] }⟩ = ["ab", "c"] :=
  ⟨by decide, by decide,
    (excludesOf_segments .cmdReqAllCached [] { body := [97, 98, 0, 99, 100] } [[97, 98]] [99, 100]
      (by decide) (by decide) rfl).trans (by decide)⟩

/-! ## The number of calls -/

/-- The loop of `CMD_REQ_ALL_CACHED` allowed `n` calls of `cutString`: `none` if it has
not stopped by then. -/
def cutAllFor : Nat → List UInt8 → Option (List String)
  | _, [] => some []
  | 0, _ :: _ => none
  | n + 1, data@(_ :: _) =>
    match cutString data with
    | .error _ => some []
    | .ok (id, rest) => (cutAllFor n rest).map (ofBytes id :: ·)

/-- As many calls as the data has bytes are enough. -/
theorem cutAllFor_eq : ∀ (n : Nat) (data : List UInt8), data.length ≤ n →
    cutAllFor n data = some (cutAll data)
  | n, [], _ => by rw [cutAll_nil]; cases n <;> rfl
  | 0, _ :: _, h => absurd h (by simp)
  | n + 1, d :: ds, h => by
    obtain ⟨str, rest, hc, -, hlt⟩ := cutString_nonempty (List.cons_ne_nil d ds)
    have hn : rest.length ≤ n := by simp only [List.length_cons] at h hlt; omega
    rw [cutAllFor, hc, cutAll_of_ok (by simp) hc]
    dsimp only
    rw [cutAllFor_eq n rest hn]
    rfl

/-- **The exclusion loop terminates.** On data that is not empty, the only data the
loop passes it, `cutString` never returns `ErrMalformedCommand` and returns a proper
suffix of the data; so on every body the loop stops within `len(body)` calls, with the
list it gives when run to its end. -/
theorem excludes_loop_terminates :
    (∀ data : List UInt8, data ≠ [] → ∃ str rest, cutString data = .ok (str, rest) ∧
      rest <:+ data ∧ rest.length < data.length) ∧
    ∀ body : List UInt8, cutAllFor body.length body = some (cutAll body) :=
  ⟨fun _ h => cutString_nonempty h, fun body => cutAllFor_eq _ body le_rfl⟩

end UniqushConn.Server
