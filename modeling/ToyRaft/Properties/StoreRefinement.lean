import ToyRaft.FileStore.Calls

/-!
# The file store refines the memory store

Within one session, and as long as no call of the file system fails, the file store answers
every sequence of calls as the memory store does, whatever the arguments are.  What is appended
must fit the record format: payloads of less than `2^32 - 16` bytes.
-/

namespace ToyRaft

/-- The answers of the memory store to a sequence of calls. -/
def Storage.replies : Storage → List LogCall → List LogReply
  | _, [] => []
  | s, c :: calls => (s.answer c).1 :: (s.answer c).2.replies calls

namespace FileStore

/-- The answers of the file store to a sequence of calls. -/
def replies : Site FileStore → List LogCall → List LogReply
  | _, [] => []
  | w, c :: calls => (answer w c).1 :: replies (answer w c).2 calls

/-- A store that is never opened again. -/
def oneSession (max : ℕ) (hmax : 0 < max) : Setting where
  max
  pos := hmax
  number _ := True
  reopens := False

lemma Session.admits {max : ℕ} {hmax : 0 < max} {w : Site FileStore} {full : List Seg}
    {act : Option Seg} (h : Session (oneSession max hmax) w full act) {c : LogCall}
    (hc : ∀ e ∈ c.batch, Fits e) : Admits (oneSession max hmax) full act c where
  fits := hc
  number _ _ := trivial
  rolls a ha := by
    rcases h.disk.led a ha with hled | hreopens
    · exact .inr hled
    · exact hreopens.1.elim

lemma replies_eq {max : ℕ} {hmax : 0 < max} {w : Site FileStore} {s : Storage}
    (h : Holds (oneSession max hmax) w s.entries) {calls : List LogCall}
    (hc : ∀ c ∈ calls, ∀ e ∈ c.batch, Fits e) : replies w calls = s.replies calls := by
  induction calls generalizing w s with
  | nil => rfl
  | cons c calls ih =>
      obtain ⟨full, act, hsession, hlog⟩ := h
      have hadmits := hsession.admits (hc c List.mem_cons_self)
      obtain ⟨hreply, hnext⟩ := hsession.answer hadmits hlog.symm
      rw [replies, Storage.replies, hreply,
        ih hnext fun c' hc' => hc c' (List.mem_cons_of_mem _ hc')]

/-- The file store opens on an empty directory, and answers every sequence of calls as a new
memory store does. -/
theorem session_refines_memory (max : ℕ) (hmax : 1 ≤ max) (calls : List LogCall)
    (hfits : ∀ c ∈ calls, ∀ e ∈ c.batch, Fits e) :
    ∃ w, (openWith max).run { disk := .empty, ram := {} } = (.ok (), w) ∧
      replies w calls = Storage.replies {} calls := by
  have hstart : Holds (oneSession max hmax)
      { disk := .empty, ram := { maxEntriesPerSegment := max } } ({} : Storage).entries :=
    ⟨[], none, session_empty fun _ _ => rfl, rfl⟩
  exact ⟨_, rfl, replies_eq hstart hfits⟩

/-- A log that is cut across two segments, written again, and read beyond its end. -/
theorem session_refines_memory_cutTwice :
    ∃ w, (openWith 1).run { disk := .empty, ram := {} } = (.ok (), w) ∧
      replies w [.append [⟨1, 1, [7]⟩, ⟨1, 2, []⟩, ⟨1, 3, [8, 9]⟩], .truncateSuffix 2,
          .append [⟨2, 2, [5]⟩], .append [⟨2, 9, []⟩], .entries 1 3, .term 2, .entries 1 4] =
        [.done, .done, .done, .failed .nonContiguous, .entries [⟨1, 1, [7]⟩, ⟨2, 2, [5]⟩],
          .number 2, .failed .unexpectedEOF] :=
  session_refines_memory 1 le_rfl _ (by decide)

end FileStore

end ToyRaft
