import ToyRaft.Daemon.KvHandler

/-!
# Keys that are not UTF-8

`PUT` sends its key through JSON and `GET` looks the path value up as it is.  JSON carries strings
of runes only: what is not UTF-8 is replaced.  So a value that was put under such a key cannot be
got back, and it is found under another key.
-/

namespace ToyRaft

namespace Kv

open Json Kvsm

namespace Handler

variable {h : Handler}

lemma get_utf8 (s : String) : h.get (utf8 s.toList) = h.sm.m.lookup s := by
  have hkeys : (fun p : String × Option Data => decide (utf8 p.1.toList = utf8 s.toList)) =
      fun p => decide (p.1 = s) := by
    funext p
    exact decide_eq_decide.mpr ⟨utf8_injective, fun hp => by rw [hp]⟩
  rw [get, hkeys, SortedMap.lookup]

/-- No string has a key that is not UTF-8. -/
lemma get_of_mem_runes {key : Data} (hkey : none ∈ runes key) : h.get key = none := by
  rw [get, Option.map_eq_none_iff, List.find?_eq_none]
  intro p _ hp
  exact notMem_runes_iff.mpr ⟨p.1, (of_decide_eq_true hp).symm⟩ hkey

lemma handleGet_of_leader (hrole : h.role = .leader) (r : Request) :
    h.handleGet r = match h.get r.key with
      | none => { status := 404 }
      | some v =>
          { status := 200, contentType := "application/octet-stream", body := v.getD [] } := by
  have hgate : h.leaderGate r = none := if_pos hrole
  cases hget : h.get r.key with
  | none => simp [handleGet, hgate, hget]
  | some v => simp [handleGet, hgate, hget]

/-- The node applies what is proposed, as an entry of that term and index, and hands the error of
the state machine on. -/
def Applies {ε : Type} (h : Handler) (parse : Data → Except ε Json) (term index : ℕ) : Prop :=
  ∀ data, h.propose data =
    (match (h.sm.apply parse ⟨term, index, data⟩).1 with
      | .ok _ => none
      | .error _ => some .other,
    (h.sm.apply parse ⟨term, index, data⟩).2)

variable {ε : Type} {parse : Data → Except ε Json} {term index : ℕ} {r : Request}

lemma handlePut_of_applies (hrole : h.role = .leader) (hbody : r.body.length ≤ maxValueBytes)
    (happly : h.Applies parse term index)
    (hparse : parse (Op.marshal { kind := "set", key := r.key, value := some r.body }) =
      .ok (marshalOp { kind := "set", key := replaced r.key, value := some r.body })) :
    h.handlePut r =
      ({ status := 200 },
        { m := h.sm.m.insert (replaced r.key) (if r.body = [] then none else some r.body),
          lastIndex := index }) := by
  have hop : unmarshal parse opFields { key := "" }
      (Op.marshal { kind := "set", key := r.key, value := some r.body }) =
        .ok { kind := "set", key := replaced r.key,
              value := if r.body = [] then none else some r.body } := by
    rw [unmarshal, hparse]
    dsimp only
    rw [storeRecord_marshalOp]
    rfl
  rw [handlePut, leaderGate, if_pos hrole]
  dsimp only
  rw [if_neg (not_lt.mpr hbody), proposeOp, happly, KV.apply]
  dsimp only
  rw [hop]
  dsimp only
  rw [if_pos rfl]

end Handler

/-- On the leader of a node that applies what is proposed, a `PUT` of at most a mebibyte is
answered with 200.  The key then has that value, and every other key what it had, just if the key
is UTF-8. -/
theorem put_faithful_iff {ε : Type} {parse : Data → Except ε Json} {term index : ℕ} {h : Handler}
    {r : Request} (hrole : h.role = .leader) (hbody : r.body.length ≤ maxValueBytes)
    (happly : h.Applies parse term index)
    (hparse : parse (Op.marshal { kind := "set", key := r.key, value := some r.body }) =
      .ok (marshalOp { kind := "set", key := replaced r.key, value := some r.body })) :
    (h.handlePut r).1 = { status := 200 } ∧
      let after := { h with sm := (h.handlePut r).2 }
      ((after.handleGet r =
          { status := 200, contentType := "application/octet-stream", body := r.body } ∧
        ∀ r' : Request, r'.key ≠ r.key → after.handleGet r' = h.handleGet r') ↔
      none ∉ runes r.key) := by
  rw [Handler.handlePut_of_applies hrole hbody happly hparse]
  refine ⟨rfl, ?_⟩
  intro after
  have hrole' : after.role = .leader := hrole
  constructor
  · rintro ⟨hget, -⟩ hmem
    rw [Handler.handleGet_of_leader hrole', Handler.get_of_mem_runes hmem] at hget
    have hstatus : 404 = 200 := congrArg Response.status hget
    omega
  · intro hvalid
    obtain ⟨s, hs⟩ := notMem_runes_iff.mp hvalid
    have hkey : replaced r.key = s := by rw [hs, replaced_utf8]
    have hlookup : ∀ t : String, after.get (utf8 t.toList) =
        if t = s then some (if r.body = [] then none else some r.body)
        else h.get (utf8 t.toList) := by
      intro t
      rw [Handler.get_utf8, Handler.get_utf8, ← hkey]
      exact SortedMap.lookup_insert
    refine ⟨?_, ?_⟩
    · rw [Handler.handleGet_of_leader hrole', hs, hlookup, if_pos rfl]
      dsimp only
      split_ifs with hempty
      · rw [hempty]
        rfl
      · rfl
    · intro r' hne
      have hsame : after.get r'.key = h.get r'.key := by
        by_cases hmem : none ∈ runes r'.key
        · rw [Handler.get_of_mem_runes hmem, Handler.get_of_mem_runes hmem]
        · obtain ⟨t, ht⟩ := notMem_runes_iff.mp hmem
          have hts : t ≠ s := fun hts => hne (by rw [ht, hs, hts])
          rw [ht, hlookup, if_neg hts]
      rw [Handler.handleGet_of_leader hrole', Handler.handleGet_of_leader hrole, hsame]

/-- The leader of an empty store, whose node applies what is proposed; its JSON reader knows one
operation. -/
def emptyLeader (op : Op String) : Handler where
  role := .leader
  leaderHint := ""
  propose data :=
    let r := ({} : KV).apply (fun _ => (.ok (marshalOp op) : Except Unit Json)) ⟨1, 1, data⟩
    (match r.1 with
      | .ok _ => none
      | .error _ => some .other,
    r.2)
  sm := {}
  clientURLs _ := []

theorem put_faithful_iff_accented :
    let r : Request := { path := utf8 "/kv/é".toList, key := [0xc3, 0xa9], body := [7] }
    let h := emptyLeader { kind := "set", key := "é", value := some [7] }
    (h.handlePut r).1 = { status := 200 } ∧
      let after := { h with sm := (h.handlePut r).2 }
      after.handleGet r =
          { status := 200, contentType := "application/octet-stream", body := [7] } ∧
        ∀ r' : Request, r'.key ≠ r.key → after.handleGet r' = h.handleGet r' := by
  intro r h
  have hkey : replaced r.key = "é" := by decide +kernel
  let parse : Data → Except Unit Json := fun _ =>
    .ok (marshalOp { kind := "set", key := "é", value := some [7] })
  have happly : h.Applies parse 1 1 := fun _ => rfl
  have hparse : parse (Op.marshal { kind := "set", key := r.key, value := some r.body }) =
      .ok (marshalOp { kind := "set", key := replaced r.key, value := some r.body }) := by
    rw [hkey]
  have hput := put_faithful_iff rfl (by decide) happly hparse
  exact ⟨hput.1, hput.2.mpr (by decide +kernel)⟩

/-- A value is put under the single byte `ff`.  It cannot be got there, and is found under the
three bytes of U+FFFD, where there was nothing. -/
theorem put_not_faithful :
    let r : Request := { path := utf8 "/kv/".toList ++ [0xff], key := [0xff], body := [7] }
    let r' : Request := { r with key := [0xef, 0xbf, 0xbd] }
    let h := emptyLeader { kind := "set", key := replaced [0xff], value := some [7] }
    let after := { h with sm := (h.handlePut r).2 }
    (h.handlePut r).1 = { status := 200 } ∧ after.handleGet r = { status := 404 } ∧
      h.handleGet r' = { status := 404 } ∧
      after.handleGet r' =
        { status := 200, contentType := "application/octet-stream", body := [7] } := by
  decide +kernel

end Kv

end ToyRaft
