import ToyRaft.FileStore.StateFiles
import ToyRaft.Framework.Utf8

/-!
# The order of the segments

The name of a segment is the index it was created for, on sixteen digits.  Below `10 ^ 16` the
order of the names byte by byte is that of the indexes (`utf8_segmentName_lt`).  `recover` takes
the names as the directory lists them, which is in order, and goes through the files one after the
other; so it visits the segments by ascending index, wherever it stops.
-/

namespace ToyRaft

namespace FileStore

/-- The names of two segments, byte by byte, are in the order of their indexes. -/
lemma utf8_segmentName_lt {i j : ℕ} (hi : i < 10 ^ 16) (hj : j < 10 ^ 16) :
    Json.utf8 (segmentName i).toList < Json.utf8 (segmentName j).toList ↔ i < j := by
  rw [Json.utf8_lt_utf8]
  constructor
  · intro h
    by_contra hle
    rcases Nat.lt_or_eq_of_le (Nat.le_of_not_lt hle) with hlt | heq
    · exact lt_asymm h (segmentName_lt hi hlt)
    · rw [heq] at h
      exact lt_irrefl _ h
  · exact segmentName_lt hj

/-! ## What `recover` goes through -/

/-- What the loop of `recover` does with one segment, by its name and the records found in it. -/
def visit (r : FileStore) (v : String × List ScanRec) : FileStore :=
  { r with idx := r.idx ++ v.2.map (idxEntry v.1), active := v.1, activeCount := v.2.length }

/-- The memory `r'` is what visits to the segments `names` make of `r`, in that order. -/
def Visited (names : List String) (r r' : FileStore) : Prop :=
  ∃ visits : List (String × List ScanRec), visits.map Prod.fst = names ∧ r' = visits.foldl visit r

lemma Visited.refl (r : FileStore) : Visited [] r r := ⟨[], rfl, rfl⟩

lemma Visited.cons {name : String} {recs : List ScanRec} {names : List String} {r r' : FileStore}
    (h : Visited names (visit r (name, recs)) r') : Visited (name :: names) r r' := by
  obtain ⟨visits, rfl, rfl⟩ := h
  exact ⟨(name, recs) :: visits, rfl, rfl⟩

lemma Visited.activeFile {names : List String} {r r' : FileStore} (h : Visited names r r') :
    r'.activeFile = r.activeFile := by
  obtain ⟨visits, -, rfl⟩ := h
  clear names
  induction visits generalizing r with
  | nil => rfl
  | cons v visits ih => exact ih

lemma keeps_scanOne_ram (name : String) (r : FileStore) :
    Prog.Keeps (fun w : Site FileStore => w.ram = r) (fun _ => True) (scanOne name) := by
  have hchange : ∀ f broken, Prog.Keeps (fun w : Site FileStore => w.ram = r) (fun _ => True)
      (Vfs.change name f broken) := fun _ _ => Vfs.keeps_change fun _ _ hw => hw
  have hscan := keeps_scanOne hchange (Vfs.keeps_syncDir fun _ hw => hw)
  exact fun w hw => Prog.wp_mono (hscan w hw) (fun _ _ h => ⟨trivial, h.2⟩) (fun _ _ h => h)
    fun _ h => h

/-- The loop visits the segments in the order of the list; if it fails or the process dies, it has
visited the first ones. -/
lemma wp_recoverSegs_visited (names : List String) (w : Site FileStore) :
    (recoverSegs names).wp (fun _ => True) (fun _ w' => Visited names w.ram w'.ram)
      (fun _ w' => ∃ seen, seen <+: names ∧ Visited seen w.ram w'.ram)
      (fun w' => ∃ seen, seen <+: names ∧ Visited seen w.ram w'.ram) w := by
  induction names generalizing w with
  | nil => exact Prog.wp_pure (.refl _)
  | cons name rest ih =>
      have hstop : ∀ w' : Site FileStore, w'.ram = w.ram →
          ∃ seen, seen <+: name :: rest ∧ Visited seen w.ram w'.ram := fun w' hw' =>
        ⟨[], List.nil_prefix, by rw [hw']; exact .refl _⟩
      refine Prog.wp_bind (Prog.wp_mono (keeps_scanOne_ram name w.ram w rfl) (fun recs w' h => ?_)
        (fun _ => hstop) hstop)
      refine Prog.wp_bind (Vfs.wp_setRam ?_)
      have hmore : ∀ w'' : Site FileStore,
          (∃ seen, seen <+: rest ∧ Visited seen (visit w'.ram (name, recs)) w''.ram) →
          ∃ seen, seen <+: name :: rest ∧ Visited seen w.ram w''.ram := by
        rintro w'' ⟨seen, hseen, hv⟩
        rw [h.2] at hv
        exact ⟨name :: seen, (List.prefix_cons_inj name).mpr hseen, hv.cons⟩
      refine Prog.wp_mono (ih _) (fun _ w'' hv => ?_) (fun _ => hmore) hmore
      rw [← h.2]
      exact hv.cons

/-- `recover` has visited the segments `seen` from the memory `r`; the handle of the active file is
set at the very end. -/
def Recovered (seen : List String) (r : FileStore) (w : Site FileStore) : Prop :=
  Visited seen r { w.ram with activeFile := r.activeFile }

lemma Visited.recovered {seen : List String} {r : FileStore} {w : Site FileStore}
    (h : Visited seen r w.ram) : Recovered seen r w := by
  rw [Recovered, ← h.activeFile]
  exact h

lemma wp_reopenActive_recovered {seen : List String} {r : FileStore} {w : Site FileStore}
    (h : Recovered seen r w) :
    reopenActive.wp (fun _ => True) (fun _ w' => Recovered seen r w')
      (fun _ w' => Recovered seen r w') (fun w' => Recovered seen r w') w := by
  refine Prog.wp_bind (Vfs.wp_ram ?_)
  split_ifs
  · exact Prog.wp_pure h
  · refine Prog.wp_bind (Prog.wp_orFail ?_)
    exact Vfs.wp_look (fun _ _ => Vfs.wp_setRam h) (fun _ _ => h) (fun _ _ => h) fun _ => h

/-- However its calls end, `recover` visits the segment files from the first name on, and all of
them if it succeeds. -/
lemma wp_recover_visited (w : Site FileStore) :
    recover.wp (fun _ => True) (fun _ w' => Recovered (w.disk.readDir.filter isSegment) w.ram w')
      (fun _ w' => ∃ seen, seen <+: w.disk.readDir.filter isSegment ∧ Recovered seen w.ram w')
      (fun w' => ∃ seen, seen <+: w.disk.readDir.filter isSegment ∧ Recovered seen w.ram w') w := by
  have hstart : ∃ seen, seen <+: w.disk.readDir.filter isSegment ∧ Recovered seen w.ram w :=
    ⟨[], List.nil_prefix, (Visited.refl _).recovered⟩
  refine Prog.wp_bind (Prog.wp_orFail (Vfs.wp_look (fun names hnames => ?_) (fun _ _ => hstart)
    (fun _ _ => hstart) fun _ => hstart))
  obtain rfl := Except.ok.inj hnames
  refine Prog.wp_bind (Prog.wp_mono (wp_recoverSegs_visited _ w) (fun _ w' h => ?_)
    (fun _ w' => ?_) fun w' => ?_)
  · exact Prog.wp_mono (wp_reopenActive_recovered h.recovered) (fun _ _ h => h)
      (fun _ _ h => ⟨_, List.prefix_rfl, h⟩) fun _ h => ⟨_, List.prefix_rfl, h⟩
  · rintro ⟨seen, hseen, h⟩
    exact ⟨seen, hseen, h.recovered⟩
  · rintro ⟨seen, hseen, h⟩
    exact ⟨seen, hseen, h.recovered⟩

lemma readDir_ascending (d : Disk) :
    (d.readDir.filter isSegment).Pairwise fun m n =>
      ∀ i < 10 ^ 16, ∀ j < 10 ^ 16, m = segmentName i → n = segmentName j → i < j := by
  refine (d.readDir_sorted.filter _).imp fun {m n} hlt i hi j hj hm hn => ?_
  rw [hm, hn] at hlt
  exact (utf8_segmentName_lt hi hj).mp (Json.utf8_lt_utf8.mpr hlt)

/-- The order of two segment names byte by byte is that of their indexes, as long as these have
no more than sixteen digits.  Hence `recover`, whatever becomes of its calls, visits segments by
ascending index, and if it succeeds it has visited every segment file of the directory. -/
theorem segments_by_index :
    (∀ i < 10 ^ 16, ∀ j < 10 ^ 16,
      (Json.utf8 (segmentName i).toList < Json.utf8 (segmentName j).toList ↔ i < j)) ∧
    ∀ (w : Site FileStore) (fates : List Fate), ∃ seen,
      Recovered seen w.ram (recover w fates).2.1 ∧
      seen <+: w.disk.readDir.filter isSegment ∧
      ((recover w fates).1 = .ok () → seen = w.disk.readDir.filter isSegment) ∧
      seen.Pairwise fun m n =>
        ∀ i < 10 ^ 16, ∀ j < 10 ^ 16, m = segmentName i → n = segmentName j → i < j := by
  refine ⟨fun i hi j hj => utf8_segmentName_lt hi hj, fun w fates => ?_⟩
  obtain ⟨-, hend⟩ := wp_recover_visited w fates fun _ _ => trivial
  have hsorted := readDir_ascending w.disk
  cases hrun : (recover w fates).1 with
  | ok u =>
      rw [hrun] at hend
      exact ⟨_, hend, List.prefix_rfl, fun _ => rfl, hsorted⟩
  | error e =>
      rw [hrun] at hend
      obtain ⟨seen, hseen, h⟩ := hend
      exact ⟨seen, h, hseen, fun hok => (by cases hok), hsorted.sublist hseen.sublist⟩
  | died =>
      rw [hrun] at hend
      obtain ⟨-, seen, hseen, h⟩ := hend
      exact ⟨seen, h, hseen, fun hok => (by cases hok), hsorted.sublist hseen.sublist⟩

/-- A directory with the segments of the indexes 10 and 9, none of which holds a record. -/
def nineAndTen : Site FileStore where
  disk := (Disk.empty.set (segmentName 10) (.solid segHeader)).set (segmentName 9)
    (.solid segHeader)
  ram := { maxEntriesPerSegment := 4 }

theorem segments_by_index_nineAndTen :
    Json.utf8 (segmentName 9).toList < Json.utf8 (segmentName 10).toList ∧
      (recover nineAndTen []).1 = .ok () ∧
      Recovered [segmentName 9, segmentName 10] nineAndTen.ram (recover nineAndTen []).2.1 := by
  obtain ⟨hnames, hrecover⟩ := segments_by_index
  have hok : (recover nineAndTen []).1 = .ok () := by decide +kernel
  have hlist : nineAndTen.disk.readDir.filter isSegment = [segmentName 9, segmentName 10] := by
    decide +kernel
  obtain ⟨seen, h, -, hall, -⟩ := hrecover nineAndTen []
  rw [hall hok, hlist] at h
  exact ⟨(hnames 9 (by decide) 10 (by decide)).mpr (by decide), hok, h⟩

end FileStore

end ToyRaft
