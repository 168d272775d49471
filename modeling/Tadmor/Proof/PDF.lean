import Mathlib.Tactic.Push
import Tadmor.Model.PDF

/-!
# The bytes of a PDF file

A string that is written is read back byte by byte, whatever stands around it.  The objects of a file follow one another,
so the offset of each is the length of what was written before it, and the numbers by which the pages are referred to are
those under which they are written.
-/

open LiteralString (Bytes readBody readAt readEscape)

namespace PDF

/-! ### Strings -/

/-- The reader takes a byte off an escaped string whatever follows it. -/
theorem readBody_escapeByte (depth : ℕ) (c : UInt8) (rest : Bytes) :
    readBody depth (escapeByte c ++ rest) = (readBody depth rest).map fun (s, after) => (c :: s, after) := by
  rw [escapeByte]
  by_cases hdelim : c = 40 ∨ c = 41 ∨ c = 92
  · rw [if_pos hdelim]
    refine LiteralString.readBody_escape (v := [c]) ?_
    rcases hdelim with rfl | rfl | rfl
    · rfl
    · rfl
    · rfl
  · rw [if_neg hdelim]
    push Not at hdelim
    obtain ⟨hopen, hclose, hbackslash⟩ := hdelim
    by_cases hn : c = 10
    · subst hn
      exact LiteralString.readBody_escape (v := [10]) rfl
    · rw [if_neg hn]
      by_cases hr : c = 13
      · subst hr
        exact LiteralString.readBody_escape (v := [13]) rfl
      · rw [if_neg hr]
        exact LiteralString.readBody_plain ⟨hclose, hopen, hbackslash, hr⟩

theorem readBody_escaped (b post : Bytes) : readBody 0 (b.flatMap escapeByte ++ 41 :: post) = some (b, post) := by
  induction b with
  | nil => exact LiteralString.readBody_close
  | cons c b ih =>
    rw [List.flatMap_cons, List.append_assoc, readBody_escapeByte, ih]
    rfl

/-- Reading the string where it starts gives its bytes and ends where it ends. -/
theorem readAt_escapeString (b before after : Bytes) :
    readAt (before ++ escapeString b ++ after) before.length = some (b, before.length + (escapeString b).length) := by
  have hread : LiteralString.read (escapeString b ++ after) = some (b, after) := by
    show readBody 0 (b.flatMap escapeByte ++ [41] ++ after) = _
    rw [List.append_assoc, List.singleton_append, readBody_escaped]
  rw [readAt, List.append_assoc, List.drop_left, hread, Option.map_some]
  have hlen : (before ++ (escapeString b ++ after)).length - after.length = before.length + (escapeString b).length := by
    simp only [List.length_append]
    omega
  exact congrArg (fun n => some (b, n)) hlen

/-- A text that is drawn can be read off the page. -/
theorem Page.exists_readAt_textGray (num : ℚ → Banking.Text) (f : Font) (size x y gray : ℚ) (s : Banking.Text) (p : Page) :
    ∃ i j, readAt (p.textGray num f size x y gray s).content i = some (encodeWinAnsi s, j) :=
  ⟨_, _, readAt_escapeString (encodeWinAnsi s) _ _⟩

/-! ### Objects -/

def object (n : ℕ) (body : Bytes) : Bytes := dec n ++ ascii " 0 obj\n".toList ++ body ++ ascii "\nendobj\n".toList

def streamBody (data : Bytes) : Bytes :=
  ascii "<< /Length ".toList ++ dec data.length ++ ascii " /Filter /FlateDecode >>\nstream\n".toList ++ data ++
    ascii "\nendstream".toList

/-- The objects with these bodies, numbered from one. -/
def objects (bodies : List Bytes) : List Bytes := bodies.mapIdx fun i body => object (i + 1) body

/-- Where the object with `i` objects before it starts -/
def offset (bodies : List Bytes) (i : ℕ) : ℕ := (header ++ ((objects bodies).take i).flatten).length

theorem length_objects (bodies : List Bytes) : (objects bodies).length = bodies.length := List.length_mapIdx

theorem objects_concat (bodies : List Bytes) (body : Bytes) :
    objects (bodies ++ [body]) = objects bodies ++ [object (bodies.length + 1) body] := List.mapIdx_concat

namespace Writer

/-- What has been written is the header and these objects. -/
structure Holds (bodies : List Bytes) (w : Writer) : Prop where
  buf : w.buf = header ++ (objects bodies).flatten
  offsets : w.offsets = (List.range bodies.length).map (offset bodies)

theorem stream_eq (w : Writer) (data : Bytes) : w.stream data = w.obj (streamBody data) := by
  have hbegin : ascii " 0 obj\n<< /Length ".toList = ascii " 0 obj\n".toList ++ ascii "<< /Length ".toList := rfl
  have hend : ascii "\nendstream\nendobj\n".toList = ascii "\nendstream".toList ++ ascii "\nendobj\n".toList := rfl
  simp only [stream, obj, mark, write, streamBody, hbegin, hend, List.append_assoc]

theorem Holds.obj {bodies : List Bytes} {w : Writer} (h : w.Holds bodies) (body : Bytes) :
    (w.obj body).Holds (bodies ++ [body]) := by
  have hlen : w.offsets.length = bodies.length := by rw [h.offsets, List.length_map, List.length_range]
  constructor
  · show w.buf ++ object (w.offsets ++ [w.buf.length]).length body = _
    rw [List.length_append, hlen, h.buf, objects_concat, List.flatten_append, List.append_assoc]
    simp
  · show w.offsets ++ [w.buf.length] = _
    rw [List.length_append, List.length_singleton, List.range_succ, List.map_append, h.offsets, h.buf]
    congr 1
    · refine List.map_congr_left fun i hi => ?_
      rw [offset, offset, objects_concat, List.take_append_of_le_length]
      rw [length_objects]
      exact (List.mem_range.1 hi).le
    · rw [List.map_singleton, offset, objects_concat, List.take_left' (length_objects bodies)]

end Writer

/-! ### Pages -/

section
variable (num : ℚ → Banking.Text) (compress : Bytes → Bytes)

def fixedBodies (pages : List Page) : List Bytes :=
  [catalog, pageTree pages, fontObject "Helvetica".toList, fontObject "Helvetica-Bold".toList]

/-- The bodies for the `i`-th page -/
def pageBodies (p : Page × ℕ) : List Bytes := [pageObject num p.2 p.1, streamBody (compress p.1.content)]

def bodies (pages : List Page) : List Bytes := fixedBodies pages ++ pages.zipIdx.flatMap (pageBodies num compress)

theorem holds_writePages {bs : List Bytes} {w : Writer} (h : w.Holds bs) (pages : List (Page × ℕ)) :
    (pages.foldl (fun w (p, i) => (w.obj (pageObject num i p)).stream (compress p.content)) w).Holds
      (bs ++ pages.flatMap (pageBodies num compress)) := by
  induction pages generalizing bs w with
  | nil => rwa [List.flatMap_nil, List.append_nil]
  | cons p pages ih =>
    have hpage := h.obj (pageObject num p.2 p.1)
    have hstream := hpage.obj (streamBody (compress p.1.content))
    rw [← Writer.stream_eq, List.append_assoc] at hstream
    rw [List.flatMap_cons, ← List.append_assoc]
    exact ih hstream

theorem length_bodies (pages : List Page) : (bodies num compress pages).length = 4 + 2 * pages.length := by
  have hpages : ∀ k, ((pages.zipIdx k).flatMap (pageBodies num compress)).length = 2 * pages.length := by
    induction pages with
    | nil => exact fun k => rfl
    | cons p pages ih =>
      intro k
      rw [List.zipIdx_cons, List.flatMap_cons, List.length_append, ih (k + 1), pageBodies]
      simp only [List.length_cons, List.length_nil]
      omega
  rw [bodies, List.length_append, hpages]
  rfl

/-- The bodies of a page stand under the numbers that the page tree and the page itself give. -/
theorem getElem?_bodies (pages : List Page) {i : ℕ} (hi : i < pages.length) :
    (bodies num compress pages)[4 + 2 * i]? = some (pageObject num i pages[i]) ∧
      (bodies num compress pages)[5 + 2 * i]? = some (streamBody (compress pages[i].content)) := by
  have hpages : ∀ k, ((pages.zipIdx k).flatMap (pageBodies num compress))[2 * i]? = some (pageObject num (k + i) pages[i]) ∧
      ((pages.zipIdx k).flatMap (pageBodies num compress))[2 * i + 1]? = some (streamBody (compress pages[i].content)) := by
    induction pages generalizing i with
    | nil => exact absurd hi (Nat.not_lt_zero i)
    | cons p pages ih =>
      intro k
      rw [List.zipIdx_cons, List.flatMap_cons]
      cases i with
      | zero => exact ⟨rfl, rfl⟩
      | succ i =>
        obtain ⟨hpage, hstream⟩ := ih (Nat.lt_of_succ_lt_succ hi) (k + 1)
        rw [Nat.add_right_comm] at hpage
        exact ⟨hpage, hstream⟩
  have hfixed : (fixedBodies pages).length = 4 := rfl
  obtain ⟨hpage, hstream⟩ := hpages 0
  have hodd : 5 + 2 * i = 4 + (2 * i + 1) := by omega
  rw [Nat.zero_add] at hpage
  rw [hodd, bodies, ← hfixed, List.getElem?_append_right (Nat.le_add_right _ _), List.getElem?_append_right (Nat.le_add_right _ _),
    Nat.add_sub_cancel_left, Nat.add_sub_cancel_left]
  exact ⟨hpage, hstream⟩

/-- The table of these offsets -/
def xrefTable (offsets : List ℕ) : Bytes :=
  ascii "xref\n0 ".toList ++ dec (offsets.length + 1) ++ ascii "\n0000000000 65535 f \n".toList ++ offsets.flatMap entry

theorem bytes_eq (pages : List Page) :
    bytes num compress pages = header ++ (objects (bodies num compress pages)).flatten ++
      xrefTable ((List.range (bodies num compress pages).length).map (offset (bodies num compress pages))) ++
      trailer ((bodies num compress pages).length + 1) (header ++ (objects (bodies num compress pages)).flatten).length := by
  have hstart : Writer.Holds [] { buf := header, offsets := [] } := ⟨(List.append_nil _).symm, rfl⟩
  have hfixed := (((hstart.obj catalog).obj (pageTree pages)).obj (fontObject "Helvetica".toList)).obj
    (fontObject "Helvetica-Bold".toList)
  have hall := holds_writePages num compress hfixed pages.zipIdx
  have hlen : (List.map (offset (bodies num compress pages)) (List.range (bodies num compress pages).length)).length =
      (bodies num compress pages).length := by rw [List.length_map, List.length_range]
  have hfile : ∀ w : Writer, w.Holds (bodies num compress pages) →
      w.buf ++ (ascii "xref\n0 ".toList ++ dec (w.offsets.length + 1) ++ ascii "\n0000000000 65535 f \n".toList) ++
        w.offsets.flatMap entry ++ trailer (w.offsets.length + 1) w.buf.length =
      header ++ (objects (bodies num compress pages)).flatten ++
        xrefTable ((List.range (bodies num compress pages).length).map (offset (bodies num compress pages))) ++
        trailer ((bodies num compress pages).length + 1)
          (header ++ (objects (bodies num compress pages)).flatten).length := by
    intro w hw
    rw [hw.buf, hw.offsets, hlen, xrefTable, hlen]
    simp only [List.append_assoc]
  exact hfile _ hall

/-- The object stands in the file where its offset says. -/
theorem object_isPrefix_drop {bs : List Bytes} {i : ℕ} (hi : i < bs.length) (rest : Bytes) :
    object (i + 1) bs[i] <+: (header ++ (objects bs).flatten ++ rest).drop (offset bs i) := by
  have hlt : i < (objects bs).length := by rwa [length_objects]
  have hobj : (objects bs)[i] = object (i + 1) bs[i] := List.getElem_mapIdx ..
  have hsplit : (objects bs).flatten =
      ((objects bs).take i).flatten ++ (object (i + 1) bs[i] ++ ((objects bs).drop (i + 1)).flatten) := by
    rw [← hobj, ← List.flatten_cons, ← List.drop_eq_getElem_cons hlt, ← List.flatten_append, List.take_append_drop]
  rw [hsplit, List.append_assoc, List.append_assoc, ← List.append_assoc header, offset, List.drop_left, List.append_assoc]
  exact List.prefix_append ..

/-- The digits of an entry spell the offset. -/
theorem numeral_entry (off : ℕ) : numeral ((Nat.toDigits 10 off).leftpad 10 '0') = off := by
  rw [List.leftpad, numeral_append, numeral_replicate, Nat.zero_mul, Nat.zero_add, numeral_toDigits]

end

end PDF
