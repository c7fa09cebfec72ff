import Mathlib.Data.List.TakeDrop
import PsplinkUsb.Psplink.ConfigUpdate

namespace PsplinkUsb.Psplink.ConfigRereading

open PsplinkUsb.Library.CString
open PsplinkUsb.Library.Lines
open PsplinkUsb.Psplink.ConfigReading
open PsplinkUsb.Psplink.ConfigUpdate

/-- A name that a line can start with. -/
structure PlainName (name : Bytes) : Prop where
  clean : ∀ c ∈ name, c ≠ 0 ∧ c ≠ newline ∧ c ≠ eof ∧ c ≠ equals
  start : ∀ c ∈ name.head?, isAspace c = false ∧ c ≠ comment

def PlainValue (value : Bytes) : Prop := ∀ c ∈ value, c ≠ 0 ∧ c ≠ newline ∧ c ≠ eof

def Plain (e : Entry) : Prop := PlainName e.1 ∧ PlainValue e.2

/-- The lines of the entries are seen by a reader with one buffer: all of each but the last, and
all of that but the newline, or, when its value is empty, no more than up to the `=`. -/
def Fits : ℕ → List Entry → Prop
  | _, [] => True
  | room, [(name, val)] =>
      name.length + val.length + 3 ≤ min room (maxBuffer - 1) ∨
        val = [] ∧ name.length + 1 = min room (maxBuffer - 1)
  | room, (name, val) :: es =>
      (configLine name val).length ≤ room ∧ Fits (room - (configLine name val).length) es

/-- The entries come back from the text written for them. -/
structure Rereadable (es : List Entry) : Prop where
  plain : ∀ e ∈ es, Plain e
  unquoted : ∀ e ∈ es, quote ∉ e.2
  fits : Fits maxBuffer es

variable {name val rest x y : Bytes} {e : Entry} {es : List Entry} {room : ℕ}

theorem mem_stripWhitesp {c : UInt8} (h : c ∈ stripWhitesp x) : c ∈ x :=
  (List.rdropWhile_prefix _ _).subset ((List.dropWhile_suffix _).subset h)

theorem start_stripWhitesp : ∀ c ∈ (stripWhitesp x).head?, isAspace c = false := by
  intro c hc
  have hhead := List.head?_dropWhile_not isAspace (x.rdropWhile isAspace)
  rw [stripWhitesp, Option.mem_def] at hc
  simpa [hc] using hhead

theorem clean_stripped {text : Bytes} :
    ∀ c ∈ stripWhitesp (cstr (piece eof newline room text).1), c ≠ 0 ∧ c ≠ newline ∧ c ≠ eof := by
  obtain ⟨a, hclean, hpiece⟩ := piece_clean eof newline room text
  have hpre : (cstr (piece eof newline room text).1).rdropWhile isAspace <+: a := by
    have hcstr : cstr (piece eof newline room text).1 <+: (piece eof newline room text).1 :=
      List.takeWhile_prefix _
    rcases hpiece with hpiece | hpiece
    · exact (List.rdropWhile_prefix _ _).trans (hpiece ▸ hcstr)
    · rw [hpiece] at hcstr ⊢
      rcases List.prefix_concat_iff.mp hcstr with hwhole | hpart
      · rw [hwhole, List.rdropWhile_concat_pos _ _ _ (by decide)]
        exact List.rdropWhile_prefix _ _
      · exact (List.rdropWhile_prefix _ _).trans hpart
  intro c hc
  have hzero : c ≠ 0 := by
    rintro rfl
    exact not_mem_cstr (mem_stripWhitesp hc)
  obtain ⟨heof, hnewline⟩ := hclean c (hpre.subset ((List.dropWhile_suffix _).subset hc))
  exact ⟨hzero, hnewline, heof⟩

theorem parseEntry_plain (hclean : ∀ c ∈ x, c ≠ 0 ∧ c ≠ newline ∧ c ≠ eof)
    (hstart : ∀ c ∈ x.head?, isAspace c = false) (h : parseEntry x = some e) : Plain e := by
  rw [parseEntry] at h
  split_ifs at h with hhead
  rcases hcut : cut equals x with _ | ⟨name, value⟩
  · simp [hcut] at h
  obtain ⟨hequals, rfl⟩ := cut_eq_some.mp hcut
  have hname : PlainName name := by
    refine ⟨?_, ?_⟩
    · intro c hc
      obtain ⟨hzero, hnewline, heof⟩ := hclean c (List.mem_append_left _ hc)
      refine ⟨hzero, hnewline, heof, ?_⟩
      rintro rfl
      exact hequals hc
    · intro c hc
      have hfirst : (name ++ equals :: value).head? = some c := by
        rw [List.head?_append, hc, Option.some_or]
      refine ⟨hstart c hfirst, ?_⟩
      rintro rfl
      exact hhead (.inl hfirst)
  have hvalue : PlainValue value :=
    fun c hc => hclean c (List.mem_append_right _ (List.mem_cons_of_mem _ hc))
  simp only [hcut] at h
  split_ifs at h
  · obtain ⟨⟨a, b⟩, hquoted, rfl⟩ := Option.map_eq_some_iff.mp h
    obtain ⟨-, htail⟩ := cut_eq_some.mp hquoted
    refine ⟨hname, fun c hc => hvalue c (List.mem_of_mem_tail ?_)⟩
    rw [htail]
    exact List.mem_append_left _ hc
  · cases h
    exact ⟨hname, hvalue⟩

theorem scan_plain (text : Bytes) : ∀ e ∈ scan text, Plain e := by
  induction text using scan.induct with
  | case1 text hnil =>
      rw [scan_nil _ hnil]
      simp
  | case2 text hline ih =>
      rw [scan_piece _ hline]
      intro e he
      rcases List.mem_append.mp he with he | he
      · exact parseEntry_plain clean_stripped start_stripWhitesp (Option.mem_toList.mp he)
      · exact ih e he

theorem parseLine_of_not_mem (h : equals ∉ x) : parseLine x = none := by
  have hcut : cut equals (stripWhitesp (cstr x)) = none :=
    cut_eq_none.mpr fun hmem => h ((List.takeWhile_prefix _).subset (mem_stripWhitesp hmem))
  rw [parseLine, parseEntry, hcut]
  split_ifs
  · rfl
  · rfl

theorem parseLine_name (hname : PlainName name) (hzero : 0 ∉ rest) :
    parseLine (name ++ equals :: rest) =
      if (rest.rdropWhile isAspace).head? = some quote then
        (cut quote (rest.rdropWhile isAspace).tail).map fun p => (name, p.1)
      else some (name, rest.rdropWhile isAspace) := by
  have hcstr : cstr (name ++ equals :: rest) = name ++ equals :: rest := by
    apply cstr_of_not_mem
    intro hmem
    rcases List.mem_append.mp hmem with hmem | hmem
    · exact (hname.clean 0 hmem).1 rfl
    · rcases List.mem_cons.mp hmem with hmem | hmem
      · exact absurd hmem (by decide)
      · exact hzero hmem
  have hstrip : stripWhitesp (name ++ equals :: rest) =
      name ++ equals :: rest.rdropWhile isAspace := by
    rw [stripWhitesp, rdropWhile_append_cons (by decide)]
    cases name with
    | nil => exact List.dropWhile_cons_of_neg (by decide)
    | cons c name =>
        have hspace := (hname.start c rfl).1
        exact List.dropWhile_cons_of_neg (by simp [hspace])
  have hhead : ¬((name ++ equals :: rest.rdropWhile isAspace).head? = some comment ∨
      name ++ equals :: rest.rdropWhile isAspace = []) := by
    rintro (hcomment | hnil)
    · cases name with
      | nil => exact absurd (Option.some.inj hcomment) (by decide)
      | cons c name =>
          exact (hname.start c rfl).2 (Option.some.inj hcomment)
    · simp at hnil
  have hequals : equals ∉ name := fun hmem => (hname.clean _ hmem).2.2.2 rfl
  rw [parseLine, hcstr, hstrip, parseEntry, if_neg hhead, cut_append hequals]

theorem parseLine_equals (hname : PlainName name) :
    parseLine (name ++ [equals]) = some (name, []) := by
  rw [parseLine_name hname List.not_mem_nil, List.rdropWhile_nil, if_neg (by simp)]

theorem parseLine_open (hname : PlainName name) (hzero : 0 ∉ x) (hquote : quote ∉ x) :
    parseLine (name ++ equals :: quote :: x) = none := by
  have hstrip : (quote :: x).rdropWhile isAspace = quote :: x.rdropWhile isAspace :=
    rdropWhile_append_cons (a := []) (by decide)
  have hcut : cut quote (x.rdropWhile isAspace) = none :=
    cut_eq_none.mpr fun hmem => hquote ((List.rdropWhile_prefix _ _).subset hmem)
  rw [parseLine_name hname (by simpa [quote] using hzero), hstrip, if_pos List.head?_cons, List.tail_cons, hcut,
    Option.map_none]

theorem parseLine_closed (hname : PlainName name) (hzero : 0 ∉ x ++ y) (hquote : quote ∉ x) :
    parseLine (name ++ equals :: quote :: (x ++ quote :: y)) = some (name, x) := by
  have hstrip : (quote :: (x ++ quote :: y)).rdropWhile isAspace =
      quote :: (x ++ quote :: y.rdropWhile isAspace) :=
    rdropWhile_append_cons (a := quote :: x) (by decide)
  have hzero' : 0 ∉ quote :: (x ++ quote :: y) := by
    simpa [quote, not_or] using hzero
  rw [parseLine_name hname hzero', hstrip, if_pos List.head?_cons, List.tail_cons, cut_append hquote,
    Option.map_some]

theorem length_configLine (name val : Bytes) :
    (configLine name val).length = name.length + val.length + 4 := by
  simp only [configLine, List.length_append, List.length_cons, List.length_nil]
  omega

theorem parseLine_value (hname : PlainName name) (hval : 0 ∉ val) (hy : 0 ∉ y) :
    ∃ x, parseLine (name ++ equals :: quote :: (val ++ quote :: y)) = some (name, x) ∧
      (x = val ↔ quote ∉ val) := by
  by_cases hquote : quote ∈ val
  · obtain ⟨⟨x, z⟩, hcut⟩ := Option.ne_none_iff_exists'.mp (mt cut_eq_none.mp (not_not.mpr hquote))
    obtain ⟨hx, rfl⟩ := cut_eq_some.mp hcut
    have hzero : 0 ∉ x ++ (z ++ quote :: y) := by
      simp only [List.mem_append, List.mem_cons, not_or] at hval ⊢
      exact ⟨hval.1, hval.2.2, hval.2.1, hy⟩
    refine ⟨x, ?_, ?_⟩
    · rw [List.append_assoc, List.cons_append]
      exact parseLine_closed hname hzero hx
    · simp
  · have hzero : 0 ∉ val ++ y := by
      rw [List.mem_append, not_or]
      exact ⟨hval, hy⟩
    exact ⟨val, parseLine_closed hname hzero hquote, by simp [hquote]⟩

/-- A part of a line before its newline is read as one piece when the buffer for lines is full
with it, or when nothing comes behind. -/
theorem scan_part (hclean : ∀ c ∈ x, c ≠ eof ∧ c ≠ newline) (hroom : x.length ≤ maxBuffer - 1)
    (hrest : rest = [] ∨ x.length = maxBuffer - 1) :
    scan (x ++ rest) = (parseLine x).toList ++ scan rest := by
  have hpiece : piece eof newline (maxBuffer - 1) (x ++ rest) = (x, rest) := by
    rw [piece_append hclean hroom]
    rcases hrest with rfl | hlength
    · rw [piece_nil, List.append_nil]
    · rw [hlength, Nat.sub_self, piece_zero, List.append_nil]
  by_cases hnil : x = []
  · subst hnil
    rcases hrest with rfl | hlength
    · rfl
    · exact absurd hlength (by decide)
  · rw [scan_piece _ (by rw [hpiece]; exact hnil), hpiece]

theorem mem_configLine (h : Plain (name, val)) {c : UInt8}
    (hc : c ∈ name ++ equals :: quote :: (val ++ [quote])) : c ≠ eof ∧ c ≠ newline := by
  rcases List.mem_append.mp hc with hc | hc
  · obtain ⟨-, hnewline, heof, -⟩ := h.1.clean c hc
    exact ⟨heof, hnewline⟩
  rcases List.mem_cons.mp hc with rfl | hc
  · decide
  rcases List.mem_cons.mp hc with rfl | hc
  · decide
  rcases List.mem_append.mp hc with hc | hc
  · obtain ⟨-, hnewline, heof⟩ := h.2 c hc
    exact ⟨heof, hnewline⟩
  · rw [List.mem_singleton.mp hc]
    decide

theorem configLine_eq :
    configLine name val = name ++ equals :: quote :: (val ++ [quote]) ++ [newline] := by
  simp [configLine]

theorem scan_configLine (h : Plain (name, val)) (hlen : (configLine name val).length < maxBuffer)
    (rest : Bytes) :
    ∃ x, scan (configLine name val ++ rest) = (name, x) :: scan rest ∧ (x = val ↔ quote ∉ val) := by
  have hpiece : piece eof newline (maxBuffer - 1) (configLine name val ++ rest) =
      (configLine name val, rest) := by
    rw [configLine_eq, List.length_append, List.length_singleton] at hlen
    rw [configLine_eq, List.append_assoc,
      piece_append (fun c hc => mem_configLine h hc) (by omega)]
    obtain ⟨n, hn⟩ := Nat.exists_eq_add_of_lt
      (show (name ++ equals :: quote :: (val ++ [quote])).length < maxBuffer - 1 by omega)
    rw [hn, Nat.add_assoc, Nat.add_sub_cancel_left, List.singleton_append, piece_stop (by decide)]
  have hne : (piece eof newline (maxBuffer - 1) (configLine name val ++ rest)).1 ≠ [] := by
    rw [hpiece, configLine]
    simp
  obtain ⟨x, hparse, hx⟩ := parseLine_value (y := [newline]) h.1
    (fun hmem => (h.2 0 hmem).1 rfl) (by decide)
  refine ⟨x, ?_, hx⟩
  have hline : parseLine (configLine name val) = some (name, x) := hparse
  rw [scan_piece _ hne, hpiece, hline]
  rfl

theorem scan_short (h : rest.length ≤ 1) :
    (equals ∉ rest → scan rest = []) ∧ ∀ e es, scan rest = e :: es → e = ([], []) := by
  have hnil : scan [] = [] := scan_nil _ (by simp)
  rcases rest with _ | ⟨c, _ | ⟨d, rest⟩⟩
  · exact ⟨fun _ => hnil, fun e es hscan => by simp [hnil] at hscan⟩
  · by_cases hend : c = eof ∨ c = newline
    · have hscan : scan [c] = [] := by
        rcases hend with rfl | rfl
        · decide +kernel
        · decide +kernel
      exact ⟨fun _ => hscan, fun e es h => by simp [hscan] at h⟩
    · have hone : 1 ≤ maxBuffer - 1 := by decide
      have hclean : ∀ d ∈ [c], d ≠ eof ∧ d ≠ newline := by
        simpa [not_or] using hend
      have hscan : scan [c] = (parseLine [c]).toList ++ scan [] :=
        scan_part hclean hone (.inl rfl)
      rw [hscan, hnil, List.append_nil]
      by_cases hc : c = equals
      · have hempty : PlainName [] := ⟨by simp, by simp⟩
        have hparse : parseLine [c] = some ([], []) := hc ▸ parseLine_equals hempty
        rw [hparse]
        refine ⟨fun hmem => absurd (hc ▸ List.mem_cons_self) hmem, ?_⟩
        intro e es h
        exact (List.cons.inj h).1.symm
      · have hparse : parseLine [c] = none := parseLine_of_not_mem (by simpa using Ne.symm hc)
        rw [hparse]
        exact ⟨fun _ => rfl, fun e es h => by simp at h⟩
  · simp at h

theorem seen_cases (h : x ++ rest <+: configLine name val)
    (hpart : x.length < (configLine name val).length) :
    x <+: name ∨
      (x = name ++ [equals] ∧ rest <+: quote :: (val ++ [quote, newline])) ∨
      (x = name ++ equals :: quote :: (val ++ [quote]) ∧ rest <+: [newline]) ∨
      ∃ y, x = name ++ equals :: quote :: y ∧ y <+: val := by
  have hx : x <+: configLine name val := (List.prefix_append x rest).trans h
  have hname : name <+: configLine name val := List.prefix_append _ _
  rcases List.prefix_or_prefix_of_prefix hx hname with hx | ⟨z, rfl⟩
  · exact .inl hx
  rw [configLine, List.append_assoc, List.prefix_append_right_inj] at h
  rcases z with _ | ⟨c, z⟩
  · exact .inl (by simp)
  obtain ⟨rfl, hquote⟩ := List.cons_prefix_cons.mp h
  rcases z with _ | ⟨c, z⟩
  · exact .inr (.inl ⟨rfl, hquote⟩)
  obtain ⟨rfl, htail⟩ := List.cons_prefix_cons.mp hquote
  have hval : z ++ rest <+: val ++ [quote, newline] := htail
  have hz : z <+: val ++ [quote, newline] := (List.prefix_append z rest).trans hval
  rcases List.prefix_or_prefix_of_prefix hz (List.prefix_append _ _) with hz | ⟨y, rfl⟩
  · exact .inr (.inr (.inr ⟨z, rfl, hz⟩))
  rw [List.append_assoc, List.prefix_append_right_inj] at hval
  rcases y with _ | ⟨c, _ | ⟨d, y⟩⟩
  · exact .inr (.inr (.inr ⟨_, rfl, by simp⟩))
  · obtain ⟨rfl, hnewline⟩ := List.cons_prefix_cons.mp hval
    exact .inr (.inr (.inl ⟨rfl, hnewline⟩))
  · simp only [length_configLine, List.length_cons, List.length_append] at hpart
    omega

/-- A line that is not read as one piece gives its entry when no more than its newline is
missing, or no more than the empty value. -/
theorem scan_cut (h : Plain (name, val)) (hseen : x ++ rest <+: configLine name val)
    (hpart : x.length < (configLine name val).length) (hroom : x.length ≤ maxBuffer - 1)
    (hshort : rest.length ≤ 1) (hrest : rest = [] ∨ x.length = maxBuffer - 1) :
    scan (x ++ rest) = (name, val) :: es ↔
      quote ∉ val ∧ es = [] ∧
        (name.length + val.length + 3 ≤ x.length ∨ val = [] ∧ name.length + 1 = x.length) := by
  have hequals : equals ∉ name := fun hmem => (h.1.clean _ hmem).2.2.2 rfl
  have hzero : 0 ∉ val := fun hmem => (h.2 0 hmem).1 rfl
  have hclean : ∀ c ∈ x, c ≠ eof ∧ c ≠ newline := by
    have hx := (List.prefix_append x rest).trans hseen
    rw [configLine_eq] at hx
    rcases List.prefix_concat_iff.mp hx with hwhole | hx
    · rw [hwhole, ← configLine_eq] at hpart
      exact absurd hpart (Nat.lt_irrefl _)
    · exact fun c hc => mem_configLine h (hx.subset hc)
  -- an entry read of the byte behind it is empty, and the line is long when there is one
  have hbehind : scan rest ≠ (name, val) :: es := by
    intro hscan
    have hempty := (scan_short hshort).2 _ _ hscan
    rcases hrest with rfl | hfull
    · simp [scan_nil] at hscan
    · cases hempty
      rw [hfull] at hpart
      exact absurd hpart (by decide)
  have hone : ∀ {c : UInt8} {cs : Bytes}, rest <+: c :: cs → c ≠ equals → scan rest = [] := by
    intro c cs hpre hc
    apply (scan_short hshort).1
    rcases rest with _ | ⟨d, _ | ⟨d', rest⟩⟩
    · exact List.not_mem_nil
    · rw [(List.cons_prefix_cons.mp hpre).1]
      exact fun hmem => hc (List.mem_singleton.mp hmem).symm
    · simp at hshort
  rw [scan_part hclean hroom hrest]
  rcases seen_cases hseen hpart with hx | ⟨rfl, hrest'⟩ | ⟨rfl, hrest'⟩ | ⟨y, rfl, hy⟩
  · have hlength := hx.length_le
    have hparse : parseLine x = none := parseLine_of_not_mem fun hmem => hequals (hx.subset hmem)
    rw [hparse]
    constructor
    · exact fun hscan => absurd hscan hbehind
    · rintro ⟨-, -, hseen | ⟨-, hseen⟩⟩
      · omega
      · omega
  · rw [parseLine_equals h.1, hone hrest' (by decide)]
    simp only [Option.toList_some, List.append_nil, List.cons.injEq, Prod.mk.injEq,
      List.length_append, List.length_singleton, true_and, and_true]
    constructor
    · rintro ⟨rfl, rfl⟩
      exact ⟨List.not_mem_nil, rfl, .inr rfl⟩
    · rintro ⟨-, rfl, hseen | rfl⟩
      · omega
      · exact ⟨rfl, rfl⟩
  · obtain ⟨v, hparse, hv⟩ := parseLine_value (y := []) h.1 hzero List.not_mem_nil
    rw [hparse, hone hrest' (by decide), ← hv]
    simp only [Option.toList_some, List.append_nil, List.cons.injEq, Prod.mk.injEq,
      List.length_append, List.length_cons, List.length_nil, true_and]
    constructor
    · rintro ⟨hval, rfl⟩
      exact ⟨hval, rfl, .inl (by omega)⟩
    · rintro ⟨hval, rfl, -⟩
      exact ⟨hval, rfl⟩
  · have hlength := hy.length_le
    have hshown : ¬(name.length + val.length + 3 ≤ (name ++ equals :: quote :: y).length ∨
        val = [] ∧ name.length + 1 = (name ++ equals :: quote :: y).length) := by
      simp only [List.length_append, List.length_cons]
      omega
    have hzero' : 0 ∉ y := fun hmem => hzero (hy.subset hmem)
    by_cases hquote : quote ∈ y
    · obtain ⟨⟨v, z⟩, hcut⟩ :=
        Option.ne_none_iff_exists'.mp (mt cut_eq_none.mp (not_not.mpr hquote))
      obtain ⟨hv, rfl⟩ := cut_eq_some.mp hcut
      have hzero'' : 0 ∉ v ++ z := by
        simp only [List.mem_append, List.mem_cons, not_or] at hzero' ⊢
        exact ⟨hzero'.1, hzero'.2.2⟩
      rw [parseLine_closed h.1 hzero'' hv]
      constructor
      · intro hscan
        cases hscan
        exact absurd (hy.subset hquote) hv
      · exact fun hall => absurd hall.2.2 hshown
    · rw [parseLine_open h.1 hzero' hquote]
      constructor
      · exact fun hscan => absurd hscan hbehind
      · exact fun hall => absurd hall.2.2 hshown

theorem fits_zero : ¬Fits 0 (e :: es) := by
  obtain ⟨name, val⟩ := e
  cases es with
  | nil => simp [Fits]
  | cons e es => simp [Fits, configLine]

theorem fits_cons (hlen : (configLine name val).length ≤ room)
    (hroom : (configLine name val).length < maxBuffer) :
    Fits room ((name, val) :: es) ↔ Fits (room - (configLine name val).length) es := by
  cases es with
  | nil =>
      have hline := length_configLine name val
      simp only [Fits, iff_true]
      left
      omega
  | cons e es =>
      rw [Fits]
      · exact and_iff_right hlen
      · exact List.cons_ne_nil e es

theorem fits_cut (hmax : room ≤ maxBuffer)
    (hpart : min room (maxBuffer - 1) < (configLine name val).length) :
    Fits room ((name, val) :: es) ↔ es = [] ∧
      (name.length + val.length + 3 ≤ min room (maxBuffer - 1) ∨
        val = [] ∧ name.length + 1 = min room (maxBuffer - 1)) := by
  cases es with
  | nil => simp [Fits]
  | cons e es =>
      have hfull : ¬(Fits room ((name, val) :: e :: es)) := by
        rw [Fits]
        · rintro ⟨hlen, hfits⟩
          have hzero : room - (configLine name val).length = 0 := by omega
          exact fits_zero (hzero ▸ hfits)
        · exact List.cons_ne_nil e es
      simp [hfull]

theorem take_split {line : Bytes} (hmax : room ≤ maxBuffer)
    (hpart : min room (maxBuffer - 1) < line.length) (rest : Bytes) :
    ∃ x y, (line ++ rest).take room = x ++ y ∧ x.length = min room (maxBuffer - 1) ∧
      x ++ y <+: line ∧ y.length ≤ 1 ∧ (y = [] ∨ x.length = maxBuffer - 1) := by
  have hone : maxBuffer - (maxBuffer - 1) = 1 := by decide
  generalize hm : min room (maxBuffer - 1) = m at hpart
  have hlength : (line.take m).length = m := List.length_take_of_le (Nat.le_of_lt hpart)
  have hroom : room - m ≤ 1 := by omega
  have htake : (line ++ rest).take room =
      line.take m ++ (line.drop m ++ rest).take (room - m) := by
    conv_lhs => rw [← List.take_append_drop m line, List.append_assoc, List.take_append, hlength]
    rw [List.take_of_length_le (by omega)]
  have hshort : ((line.drop m ++ rest).take (room - m)).length ≤ 1 :=
    (List.length_take_le _ _).trans hroom
  have hpre : (line.drop m ++ rest).take (room - m) <+: line.drop m := by
    apply List.prefix_of_prefix_length_le (List.take_prefix _ _) (List.prefix_append _ rest)
    rw [List.length_drop]
    omega
  refine ⟨_, _, htake, hlength, ?_, hshort, ?_⟩
  · conv_rhs => rw [← List.take_append_drop m line]
    exact (List.prefix_append_right_inj _).mpr hpre
  · rcases Nat.le_total room (maxBuffer - 1) with hle | hle
    · have hzero : room - m = 0 := by omega
      exact .inl (by rw [hzero, List.take_zero])
    · exact .inr (by rw [hlength]; omega)

theorem scan_configText (hmax : room ≤ maxBuffer) (hplain : ∀ e ∈ es, Plain e) :
    scan ((configText es).take room) = es ↔ (∀ e ∈ es, quote ∉ e.2) ∧ Fits room es := by
  induction es generalizing room with
  | nil => simp [configText, scan_nil, Fits]
  | cons e es ih =>
      obtain ⟨name, val⟩ := e
      have htext : configText ((name, val) :: es) = configLine name val ++ configText es := rfl
      rw [htext, List.forall_mem_cons]
      by_cases hwhole : (configLine name val).length ≤ min room (maxBuffer - 1)
      · have htake : (configLine name val ++ configText es).take room =
            configLine name val ++ (configText es).take (room - (configLine name val).length) := by
          rw [List.take_append, List.take_of_length_le (by omega)]
        have hlen : (configLine name val).length < maxBuffer :=
          Nat.lt_of_le_of_lt (hwhole.trans (Nat.min_le_right _ _)) (by decide)
        have hrest : room - (configLine name val).length ≤ maxBuffer :=
          (Nat.sub_le _ _).trans hmax
        obtain ⟨x, hscan, hx⟩ := scan_configLine (hplain _ List.mem_cons_self) hlen
          ((configText es).take (room - (configLine name val).length))
        rw [htake, hscan, fits_cons (hwhole.trans (Nat.min_le_left _ _)) hlen, List.cons.injEq,
          Prod.mk.injEq, ih hrest fun e he => hplain e (List.mem_cons_of_mem _ he), hx]
        tauto
      · have hpart := Nat.not_le.mp hwhole
        obtain ⟨x, rest, htake, hlength, hseen, hshort, hrest⟩ :=
          take_split hmax hpart (configText es)
        rw [htake, scan_cut (hplain _ List.mem_cons_self) hseen (hlength ▸ hpart)
          (hlength ▸ Nat.min_le_right _ _) hshort hrest, fits_cut hmax hpart, hlength]
        constructor
        · rintro ⟨hquote, rfl, hline⟩
          exact ⟨⟨hquote, by simp⟩, rfl, hline⟩
        · rintro ⟨⟨hquote, -⟩, rfl, hline⟩
          exact ⟨hquote, rfl, hline⟩

/-- The text of entries gives them again exactly when they are rereadable. -/
theorem configEntries_configText (es : List Entry) :
    configEntries (configText es) = es ↔ Rereadable es := by
  rw [configEntries_eq]
  constructor
  · intro hread
    have hplain : ∀ e ∈ es, Plain e := by
      rw [← hread]
      exact scan_plain _
    obtain ⟨hquote, hfits⟩ := (scan_configText (Nat.le_refl _) hplain).mp hread
    exact ⟨hplain, hquote, hfits⟩
  · intro h
    exact (scan_configText (Nat.le_refl _) h.plain).mpr ⟨h.unquoted, h.fits⟩

/-- When the calls on the files succeed, the new file gives the updated entries exactly when
these are rereadable. -/
theorem configChange_iff (content newname newval : Bytes) (mode : ℤ) (tmp : Option Bytes)
    (hmode : mode = configModeAdd ∨ mode = configModeDel) :
    (configChange .allSucceed newname newval mode ⟨some content, tmp⟩).cnf.map configEntries =
        some (updated newname newval mode (configEntries content)) ↔
      Rereadable (updated newname newval mode (configEntries content)) := by
  have hchange : ¬(mode ≠ configModeAdd ∧ mode ≠ configModeDel) := by
    rintro ⟨hadd, hdel⟩
    exact hmode.elim hadd hdel
  have hnew : (configChange .allSucceed newname newval mode ⟨some content, tmp⟩).cnf =
      some (changedText content newname newval mode) := by
    rw [configChange, if_neg hchange]
    rfl
  rw [hnew, Option.map_some, Option.some_inj, changedText_eq, configEntries_configText]

/-- A file with the lines `a=b`, a comment, and `c="d e"`. -/
def twoEntries : Bytes :=
  [0x61, 0x3D, 0x62, 0x0A, 0x23, 0x78, 0x0A, 0x63, 0x3D, 0x22, 0x64, 0x20, 0x65, 0x22, 0x0A]

/-- `a` gets another value. -/
theorem configChange_iff_add :
    (configChange .allSucceed [0x61] [0x66] configModeAdd ⟨some twoEntries, none⟩).cnf.map
        configEntries = some [([0x61], [0x66]), ([0x63], [0x64, 0x20, 0x65])] ∧
      Rereadable [([0x61], [0x66]), ([0x63], [0x64, 0x20, 0x65])] := by
  have hiff := configChange_iff twoEntries [0x61] [0x66] configModeAdd none (.inl rfl)
  have hupdated : updated [0x61] [0x66] configModeAdd (configEntries twoEntries) =
      [([0x61], [0x66]), ([0x63], [0x64, 0x20, 0x65])] := by decide +kernel
  have hread : (configChange .allSucceed [0x61] [0x66] configModeAdd ⟨some twoEntries, none⟩).cnf.map
      configEntries = some [([0x61], [0x66]), ([0x63], [0x64, 0x20, 0x65])] := by decide +kernel
  rw [hupdated] at hiff
  exact ⟨hread, hiff.mp hread⟩

/-- A value with a quote in it, `b"c` without quotes around it, is written between quotes and
read as `b`. -/
theorem configChange_cuts_value :
    configEntries [0x61, 0x3D, 0x62, 0x22, 0x63, 0x0A] = [([0x61], [0x62, 0x22, 0x63])] ∧
      (configChange .allSucceed [0x7A] [] configModeDel
          ⟨some [0x61, 0x3D, 0x62, 0x22, 0x63, 0x0A], none⟩).cnf.map configEntries =
        some [([0x61], [0x62])] ∧
      updated [0x7A] [] configModeDel (configEntries [0x61, 0x3D, 0x62, 0x22, 0x63, 0x0A]) =
        [([0x61], [0x62, 0x22, 0x63])] := by
  refine ⟨?_, ?_, ?_⟩
  · decide +kernel
  · decide +kernel
  · decide +kernel

end PsplinkUsb.Psplink.ConfigRereading
