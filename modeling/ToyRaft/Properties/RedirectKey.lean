import ToyRaft.Daemon.KvHandler

/-!
# The key behind a redirect

A redirect sends the client to the leader's URL followed by the path of the request.  That path is
the decoded one, and the `Location` header is read as a URL, in which it is decoded again.  So the
request that follows has the same key only if nothing in the key has a meaning there: a percent,
a slash, a question mark, a hash, a control byte, a key that is a dot segment, or a space at the
end, which is trimmed off a header.
-/

namespace ToyRaft

namespace Kv

open NetUrl ServeMux

/-! ## Following a redirect -/

def isSpace (c : UInt8) : Bool := c ∈ [32, 9, 10, 13]

/-- A line break in a header is written as a space. -/
def unbroken (c : UInt8) : UInt8 := if c = 10 ∨ c = 13 then 32 else c

/-- How a header value arrives; its ends are trimmed. -/
def headerValue (v : Data) : Data := ((v.map unbroken).dropWhile isSpace).rdropWhile isSpace

/-- The key of the request that a client sends after a redirect. -/
def follow (authority : Octets → Option Octets) (location : Data) : Option Data :=
  (parse authority (headerValue location)).bind fun u =>
    (parseRequestURI authority (requestURI u)).bind pathValue

/-- The keys that a URL carries as they are. -/
def UrlSafe (key : Data) : Prop :=
  (∀ c ∈ key, isCtl c = false ∧ c ≠ 37 ∧ c ≠ 63 ∧ c ≠ 35 ∧ c ≠ 47) ∧
    key ≠ [46] ∧ key ≠ [46, 46] ∧ key.getLast? ≠ some 32

instance (key : Data) : Decidable (UrlSafe key) := inferInstanceAs (Decidable (_ ∧ _))

/-- `/kv/` in front of a key. -/
def kvPath (key : Data) : Data := 47 :: 107 :: 118 :: 47 :: key

lemma ascii_kv : ascii "kv" = [107, 118] := by decide

/-! ## The path of a routed request -/

/-- A path that is routed to `/kv/{key}` is clean, has two segments, and decodes to `/kv/` and the
key. -/
lemma pathValue_spec {u : Url} {key : Data} (h : pathValue u = some key) :
    u.path = kvPath key ∧ key ≠ [] ∧ (escapedPath u).count 47 = 2 ∧
      cleanPath (escapedPath u) = escapedPath u := by
  obtain ⟨vs, hvs, hhead⟩ := Option.bind_eq_some_iff.mp h
  rw [route] at hvs
  split_ifs at hvs with hclean
  obtain ⟨c, s₁, s₂, he, h₁, h₂, hne, hname, rfl⟩ := eq_of_matchPath hvs
  obtain rfl : pathUnescape s₂ = key := Option.some.inj hhead
  obtain rfl : c = 47 := by
    obtain ⟨q, hq⟩ := cleanPath_eq_cons (escapedPath u)
    rw [hclean, he] at hq
    exact (List.cons.inj hq).1
  have hpath := (escapedPath_spec u).2
  rw [he, unescape_cons_of_ne (by decide)] at hpath
  obtain ⟨t, ht, htpath⟩ := Option.map_eq_some_iff.mp hpath
  obtain ⟨t₁, t₂, ht₁, ht₂, rfl⟩ := unescape_slash ht
  rw [pathUnescape, ht₁, Option.getD_some, ascii_kv] at hname
  rw [pathUnescape, ht₂, Option.getD_some]
  refine ⟨by rw [← htpath, hname]; rfl, ne_nil_of_unescape ht₂ hne, ?_, hclean⟩
  rw [he]
  simp [List.count_eq_zero_of_not_mem h₁, List.count_eq_zero_of_not_mem h₂]

/-! ## The header -/

/-- A key as it arrives in a header. -/
def trimmed (key : Data) : Data := (key.map unbroken).rdropWhile isSpace

lemma map_unbroken {s : Octets} (h : ∀ c ∈ s, isCtl c = false) : s.map unbroken = s := by
  refine (List.map_congr_left fun c hc => ?_).trans (List.map_id s)
  refine if_neg ?_
  rintro (rfl | rfl)
  · exact absurd (h 10 hc) (by decide)
  · exact absurd (h 13 hc) (by decide)

lemma rdropWhile_append_cons {p : UInt8 → Bool} {c : UInt8} (hc : p c = false) (x y : Data) :
    (x ++ c :: y).rdropWhile p = x ++ c :: y.rdropWhile p := by
  induction y using List.reverseRecOn with
  | nil =>
      rw [List.rdropWhile_concat_neg p x c (by rw [hc]; exact Bool.false_ne_true)]
      rfl
  | append_singleton y d ih =>
      have happ : x ++ c :: (y ++ [d]) = (x ++ c :: y) ++ [d] := by simp
      rw [happ]
      by_cases hd : p d = true
      · rw [List.rdropWhile_concat_pos p _ d hd, List.rdropWhile_concat_pos p _ d hd, ih]
      · rw [List.rdropWhile_concat_neg p _ d hd, List.rdropWhile_concat_neg p _ d hd, happ]

/-- Only the end of the key is changed. -/
lemma headerValue_location {host : Octets} (hhost : Plain host) (key : Data) :
    headerValue (ascii "http://" ++ (host ++ kvPath key)) =
      ascii "http://" ++ (host ++ kvPath (trimmed key)) := by
  have hbreaks : host.map unbroken = host := map_unbroken fun c hc => (hhost c hc).1
  have hend := rdropWhile_append_cons (by decide : isSpace 47 = false)
    (ascii "http://" ++ (host ++ [47, 107, 118])) (key.map unbroken)
  simp only [List.append_assoc, List.cons_append, List.nil_append] at hend
  rw [headerValue, List.map_append, List.map_append, hbreaks, kvPath, kvPath, trimmed, ← hend,
    ascii_http]
  rfl

/-! ## The request that follows -/

variable {authority : Octets → Option Octets} {host a : Octets} {key : Data}

lemma pathValue_congr {u v : Url} (h : escapedPath u = escapedPath v) :
    pathValue u = pathValue v := by
  rw [pathValue, pathValue, route, route, h]

/-- What a client reads from the `Location`: a path, and the key in it. -/
lemma follow_location (hauth : authority host = some a) (hhost : Plain host) (key : Data) :
    ∃ u, follow authority (ascii "http://" ++ (host ++ kvPath key)) =
      (if (cut 35 (trimmed key)).1.any isCtl ∨ unescape (cut 35 (trimmed key)).2 = none then none
      else (setPath u (kvPath (cut 63 (cut 35 (trimmed key)).1).1)).bind pathValue) := by
  have hcut : ∀ sep q, sep = 35 ∨ sep = 63 → cut sep (107 :: 118 :: 47 :: q) =
      (107 :: 118 :: 47 :: (cut sep q).1, (cut sep q).2) := by
    intro sep q hsep
    have hmem : sep ∉ [107, 118, 47] := by rcases hsep with rfl | rfl <;> decide
    exact cut_append hmem q
  obtain ⟨u, hroot, hquery, hparse⟩ :=
    parse_http hauth hhost (107 :: 118 :: 47 :: trimmed key)
  rw [hcut _ _ (.inl rfl)] at hparse hquery
  rw [hcut _ _ (.inr rfl)] at hparse hquery
  have hctl : ∀ q : Octets, (107 :: 118 :: 47 :: q).any isCtl = q.any isCtl := fun q => rfl
  rw [hctl] at hparse
  refine ⟨u, ?_⟩
  rw [follow, headerValue_location hhost]
  show (parse authority (ascii "http://" ++ (host ++ 47 :: 107 :: 118 :: 47 :: _))).bind _ = _
  rw [hparse]
  by_cases hbad : (cut 35 (trimmed key)).1.any isCtl = true ∨
      unescape (cut 35 (trimmed key)).2 = none
  · rw [if_pos hbad, if_pos hbad]
    rfl
  · rw [if_neg hbad, if_neg hbad]
    rw [not_or, Bool.not_eq_true] at hbad
    cases hset : setPath u (kvPath (cut 63 (cut 35 (trimmed key)).1).1) with
    | none =>
        rw [kvPath] at hset
        rw [hset]
        rfl
    | some v =>
        have hquery' : u.rawQuery.any isCtl = false := by
          rw [hquery]
          exact any_cut_eq_false hbad.1 63
        obtain ⟨w, hw, hsame⟩ := parseRequestURI_requestURI authority hset hroot hquery'
        rw [kvPath] at hset
        rw [hset, Option.bind_some, Option.bind_some, hw, Option.bind_some,
          pathValue_congr hsame]

lemma unescape_kvPath (s : Octets) : unescape (kvPath s) = (unescape s).map kvPath := by
  rw [kvPath, unescape_cons_of_ne (by decide), unescape_cons_of_ne (by decide),
    unescape_cons_of_ne (by decide), unescape_cons_of_ne (by decide)]
  cases unescape s <;> rfl

lemma escape_kvPath (s : Octets) : escape (kvPath s) = kvPath (escape s) := by
  have hslash : escapeByte 47 = [47] := by decide
  have hk : escapeByte 107 = [107] := by decide
  have hv : escapeByte 118 = [118] := by decide
  rw [kvPath, escape_cons, escape_cons, escape_cons, escape_cons, hslash, hk, hv]
  rfl

/-- The path that is sent to the leader: the key as it stands, or encoded. -/
lemma escapedPath_kvPath {u v : Url} {s t : Octets} (hset : setPath u (kvPath s) = some v)
    (hpath : v.path = kvPath t) : ∃ e, escapedPath v = kvPath e ∧ (e = s ∨ e = escape t) := by
  have hstar : v.path ≠ [42] := by
    rw [hpath]
    exact fun heq => absurd (List.cons.inj heq).1 (by decide)
  rcases escapedPath_of_setPath hset hstar with heq | heq
  · exact ⟨s, heq, .inl rfl⟩
  · rw [hpath, escape_kvPath] at heq
    exact ⟨escape t, heq, .inr rfl⟩

lemma follow_of_urlSafe (hauth : authority host = some a) (hhost : Plain host) (hkey : key ≠ [])
    (h : UrlSafe key) :
    follow authority (ascii "http://" ++ (host ++ kvPath key)) = some key := by
  obtain ⟨hbytes, hdot, hdots, hlast⟩ := h
  have htrim : trimmed key = key := by
    rw [trimmed, map_unbroken fun c hc => (hbytes c hc).1, List.rdropWhile_eq_self_iff]
    intro hne hspace
    have hmem := List.getLast_mem hne
    have hspaces : ∀ c, isSpace c = true → isCtl c = true ∨ c = 32 := by
      intro c hc
      simp only [isSpace, decide_eq_true_eq, List.mem_cons, List.not_mem_nil, or_false] at hc
      rcases hc with rfl | rfl | rfl | rfl <;> decide
    rcases hspaces _ hspace with hctl | h32
    · rw [(hbytes _ hmem).1] at hctl
      exact Bool.false_ne_true hctl
    · exact hlast (by rw [List.getLast?_eq_some_getLast hne, h32])
  have hpercent : 37 ∉ key := fun hmem => (hbytes 37 hmem).2.1 rfl
  have hquest : 63 ∉ key := fun hmem => (hbytes 63 hmem).2.2.1 rfl
  have hhash : 35 ∉ key := fun hmem => (hbytes 35 hmem).2.2.2.1 rfl
  have hslash : 47 ∉ key := fun hmem => (hbytes 47 hmem).2.2.2.2 rfl
  have hctl : ¬ (key.any isCtl = true) := by
    rw [Bool.not_eq_true, List.any_eq_false]
    intro c hc
    rw [(hbytes c hc).1]
    exact Bool.false_ne_true
  obtain ⟨u, hfollow⟩ := follow_location hauth hhost key
  rw [hfollow, htrim, cut_of_notMem hhash]
  dsimp only
  rw [if_neg (not_or.mpr ⟨hctl, by decide⟩), cut_of_notMem hquest]
  obtain ⟨v, hset, hpath⟩ : ∃ v, setPath u (kvPath key) = some v ∧ v.path = kvPath key := by
    rw [setPath, unescape_kvPath, unescape_of_notMem hpercent]
    exact ⟨_, rfl, rfl⟩
  rw [hset, Option.bind_some]
  obtain ⟨e, he, hcases⟩ := escapedPath_kvPath hset hpath
  have hun : unescape e = some key := by
    rcases hcases with rfl | rfl
    · exact unescape_of_notMem hpercent
    · exact unescape_escape key
  have heslash : 47 ∉ e := by
    rcases hcases with rfl | rfl
    · exact hslash
    · rwa [← List.count_eq_zero, count_slash_escape, List.count_eq_zero]
  -- The segment decodes to the key, so it is no dot segment either.
  have hdots' : e ∉ [[], [46], [46, 46]] := by
    intro hmem
    simp only [List.mem_cons, List.not_mem_nil, or_false] at hmem
    rcases hmem with rfl | rfl | rfl
    · exact hkey (Option.some.inj hun).symm
    · exact hdot (Option.some.inj hun).symm
    · exact hdots (Option.some.inj hun).symm
  have hvalue : pathUnescape e = key := by rw [pathUnescape, hun, Option.getD_some]
  have hkv : 47 ∉ ([107, 118] : Octets) := by decide
  have hclean : cleanPath (kvPath e) = kvPath e := cleanPath_two hkv heslash (by decide) hdots'
  have hmatch : matchPath kvPattern (kvPath e) = some [pathUnescape e] :=
    matchPath_two hkv heslash (by decide)
      (fun hnil => hdots' (hnil ▸ List.mem_cons_self))
      (fun hv => hslash (by rw [← hvalue, hv]; exact List.mem_cons_self))
  rw [pathValue, route, he, if_pos hclean, hmatch, hvalue]
  rfl

lemma urlSafe_of_follow (hauth : authority host = some a) (hhost : Plain host)
    (h : follow authority (ascii "http://" ++ (host ++ kvPath key)) = some key) : UrlSafe key := by
  obtain ⟨u, hfollow⟩ := follow_location hauth hhost key
  rw [hfollow] at h
  split_ifs at h with hbad
  rw [not_or] at hbad
  obtain ⟨v, hset, hv⟩ := Option.bind_eq_some_iff.mp h
  obtain ⟨hpath, -, hcount, hclean⟩ := pathValue_spec hv
  obtain ⟨path, hun, hvpath⟩ := Option.map_eq_some_iff.mp hset
  obtain rfl : path = kvPath key := by rw [← hpath, ← hvpath]
  rw [unescape_kvPath] at hun
  obtain ⟨t, ht, htkey⟩ := Option.map_eq_some_iff.mp hun
  obtain rfl : t = key := by simpa [kvPath] using htkey
  -- No step makes the key longer, so none of them changes it.
  obtain ⟨hlen₁, hpercent⟩ := length_unescape ht
  obtain ⟨hlen₂, hquest⟩ := length_cut 63 (cut 35 (trimmed t)).1
  obtain ⟨hlen₃, hhash⟩ := length_cut 35 (trimmed t)
  have hpre : trimmed t <+: t.map unbroken := List.rdropWhile_prefix _ _
  have hlen₄ : (trimmed t).length ≤ t.length := hpre.length_le.trans_eq (List.length_map _)
  have hhash := hhash (by omega)
  have hquest := hquest (by omega)
  have hpercent := hpercent (by omega)
  have hcut₁ : (cut 35 (trimmed t)).1 = trimmed t := by rw [cut_of_notMem hhash]
  rw [hcut₁] at hquest hset ht hpercent hbad
  have hcut₂ : (cut 63 (trimmed t)).1 = trimmed t := by rw [cut_of_notMem hquest]
  rw [hcut₂] at hset ht hpercent
  have htrim : trimmed t = t := by
    rw [unescape_of_notMem hpercent] at ht
    exact Option.some.inj ht
  rw [htrim] at hhash hquest hpercent hbad hset
  obtain ⟨e, he, hcases⟩ := escapedPath_kvPath hset hpath
  have hecount : e.count 47 = t.count 47 := by
    rcases hcases with rfl | rfl
    · rfl
    · exact count_slash_escape t
  have hslash : 47 ∉ t := by
    rw [he, kvPath] at hcount
    simp only [List.count_cons, hecount] at hcount
    rw [← List.count_eq_zero]
    simpa using hcount
  have hunclean : ∀ d : Data, d = [46] ∨ d = [46, 46] → t ≠ d := by
    rintro d hd rfl
    have hplain : escape t = t := by rcases hd with rfl | rfl <;> decide
    rw [hplain, or_self] at hcases
    rw [he, hcases] at hclean
    rcases hd with rfl | rfl <;> exact absurd hclean (by decide)
  refine ⟨?_, hunclean _ (.inl rfl), hunclean _ (.inr rfl), ?_⟩
  · intro c hc
    refine ⟨?_, ?_, ?_, ?_, ?_⟩
    · simpa using List.any_eq_false.mp (Bool.not_eq_true _ ▸ hbad.1) c hc
    · exact fun heq => hpercent (heq ▸ hc)
    · exact fun heq => hquest (heq ▸ hc)
    · exact fun heq => hhash (heq ▸ hc)
    · exact fun heq => hslash (heq ▸ hc)
  · have hself : t.rdropWhile isSpace = t := by
      rw [← htrim, trimmed, List.rdropWhile_idempotent]
    intro hlast
    have hne : t ≠ [] := by
      rintro rfl
      cases hlast
    rw [List.getLast?_eq_some_getLast hne] at hlast
    exact List.rdropWhile_eq_self_iff.mp hself hne (by rw [Option.some.inj hlast]; decide)

/-- A request for `/kv/{key}` reaches a node that does not lead but knows who does, at the gate or
when the proposal fails.  It is answered with 307, and a client that follows the `Location` asks
the leader for the same key just if the key is safe. -/
theorem redirect_same_key_iff {h : Handler} {hint : NodeID} (hauth : authority host = some a)
    (hhost : Plain host) (hhint : hint ≠ "") (hurl : h.clientURLs hint = ascii "http://" ++ host)
    {u : Url} (hkey : pathValue u = some key) (body : Data) :
    ∃ location,
      (h.role ≠ .leader → h.leaderHint = hint →
        h.leaderGate { path := u.path, key := key, body := body } =
          some { status := 307, location := some location, leaderHint := some hint }) ∧
      (∀ op sm, h.propose (Kvsm.Op.marshal op) = (some (.notLeader hint), sm) →
        h.proposeOp { path := u.path, key := key, body := body } op =
          ({ status := 307, location := some location, leaderHint := some hint }, sm)) ∧
      (follow authority location = some key ↔ UrlSafe key) := by
  obtain ⟨hpath, hne, -, -⟩ := pathValue_spec hkey
  have hredirect : h.redirect hint { path := u.path, key := key, body := body } =
      { status := 307, location := some (ascii "http://" ++ (host ++ kvPath key)),
        leaderHint := some hint } := by
    rw [Handler.redirect, if_neg hhint, hurl, hpath, List.append_assoc]
  refine ⟨ascii "http://" ++ (host ++ kvPath key), ?_, ?_, ?_⟩
  · intro hrole hleader
    rw [Handler.leaderGate, if_neg hrole, hleader, hredirect]
  · intro op sm hpropose
    rw [Handler.proposeOp, hpropose]
    dsimp only
    rw [hredirect]
  · exact ⟨urlSafe_of_follow hauth hhost, follow_of_urlSafe hauth hhost hne⟩

/-- A follower that takes `n2` to lead, at `n2:9002`. -/
def followerOf : Handler where
  role := .follower
  leaderHint := "n2"
  propose _ := (some (.notLeader "n2"), {})
  sm := {}
  clientURLs id := if id = "n2" then ascii "http://n2:9002" else []

/-- The key `é b` is found again. -/
theorem redirect_same_key_iff_accented :
    ∃ u, parseRequestURI some (ascii "/kv/%C3%A9%20b") = some u ∧
      pathValue u = some [0xc3, 0xa9, 0x20, 0x62] ∧
      ∃ location,
        followerOf.leaderGate { path := u.path, key := [0xc3, 0xa9, 0x20, 0x62] } =
          some { status := 307, location := some location, leaderHint := some "n2" } ∧
        follow some location = some [0xc3, 0xa9, 0x20, 0x62] := by
  have hhost : Plain (ascii "n2:9002") := by
    unfold Plain
    decide +kernel
  obtain ⟨u, hu, hkey⟩ : ∃ u, parseRequestURI some (ascii "/kv/%C3%A9%20b") = some u ∧
      pathValue u = some [0xc3, 0xa9, 0x20, 0x62] := by
    refine ⟨{ path := kvPath [0xc3, 0xa9, 0x20, 0x62] }, ?_, ?_⟩ <;> decide +kernel
  obtain ⟨location, hgate, -, hfollow⟩ :=
    redirect_same_key_iff (h := followerOf) rfl hhost (by decide : "n2" ≠ "") (by decide +kernel)
      hkey []
  exact ⟨u, hu, hkey, location, hgate (by decide) rfl, hfollow.mpr (by decide +kernel)⟩

/-- The key `a?b` is another one, `a`, behind the redirect. -/
theorem redirect_to_other_key :
    ∃ u, parseRequestURI some (ascii "/kv/a%3Fb") = some u ∧
      pathValue u = some (ascii "a?b") ∧
      ((followerOf.leaderGate { path := u.path, key := ascii "a?b" }).bind (·.location)).bind
        (follow some) = some (ascii "a") := by
  refine ⟨{ path := kvPath (ascii "a?b") }, ?_, ?_, ?_⟩ <;> decide +kernel

end Kv

end ToyRaft
