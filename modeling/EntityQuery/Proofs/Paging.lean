import EntityQuery.Proofs.Fetch.Stitching
import EntityQuery.Proofs.Filter.Operands
import EntityQuery.Proofs.Pager
import EntityQuery.Proofs.Preparation

/-!
# Paging

**The pages of a request, asked for one after the other, are the records that it selects, in their
order** (`pages_tile_selection`): none is lost or repeated at the end of a page. The number of pages
is what every one of them says, and a page beyond them is empty.

Three facts come together here. Parts of one size, cut from a list one after the other, make up the
list (`flatMap_pageOf`). Turning to another page changes the offset of a prepared request and
nothing else of it (`prepare_turned`). And what a dataset answers to a part is that part of what it
answers to the whole selection (`select_part`), since the records are put in order before the part
is cut. `Tiled` puts together what is said of all pages, and `Answered` what is said of one.
-/

namespace EntityQuery

/-! ## Parts of one size -/

section

variable {α : Type} {size : Nat}

/-- There are as many parts as start before the end. -/
theorem lt_parts_iff (hs : 0 < size) {k total : Nat} :
    k < (total + size - 1) / size ↔ k * size < total := by
  rw [← Nat.succ_le_iff, Nat.le_div_iff_mul_le hs, Nat.succ_mul]
  omega

theorem flatMap_pageOf (l : List α) (size n : Nat) :
    (List.range n).flatMap (fun k => pageOf l (k * size) (some size)) = l.take (n * size) := by
  induction n with
  | zero => simp
  | succ n ih =>
    rw [List.range_succ, List.flatMap_append, ih, List.flatMap_singleton, Nat.succ_mul,
      List.take_add]
    rfl

theorem pageOf_eq_nil {l : List α} {offset : Nat} {limit : Option Nat} (h : l.length ≤ offset) :
    pageOf l offset limit = [] := by
  cases limit <;> simp [pageOf, List.drop_eq_nil_of_le h]

theorem length_pageOf (l : List α) (offset limit : Nat) :
    (pageOf l offset (some limit)).length = min limit (l.length - offset) := by
  simp [pageOf]

end

/-! ## Turning the page -/

namespace Pager

/-- The page that comes `k` pages after the first. -/
theorem setPage_firstPage_add {p : Pager} {k : Nat} (h : k * p.size ≤ maxOffset) :
    p.setPage (p.firstPage + k) =
      .ok { p with page := p.firstPage + k, offset := k * p.size } := by
  rw [setPage_eq_ok_iff, Nat.add_sub_cancel_left, Nat.max_eq_left (Nat.le_add_right ..)]
  exact ⟨h, rfl⟩

end Pager

/-- The selection of which no part is left out. -/
def Selection.whole (q : Selection) : Selection := { q with limit := none, offset := 0 }

namespace Dataset

variable {d : Dataset} {s : Schema} {q : Selection} {all : List Record}

/-- What a selection gives without limit and offset is what its predicate keeps, in order. -/
theorem select_whole_eq_ok_iff :
    d.select s q.whole = .ok all ↔ ∃ kept, d.matching s q = .ok kept ∧
      stableSort (fun a b => compareRecords a b q.order = .lt) kept = all :=
  bind_eq_ok.trans (exists_congr fun _ => and_congr_right fun _ => pure_eq_ok)

theorem select_part (whole : d.select s q.whole = .ok all) (offset : Nat) (limit : Option Nat) :
    d.select s { q with offset := offset, limit := limit } = .ok (pageOf all offset limit) := by
  obtain ⟨kept, matching, rfl⟩ := select_whole_eq_ok_iff.mp whole
  exact bind_eq_ok.mpr ⟨kept, matching, rfl⟩

theorem count_whole (whole : d.select s q.whole = .ok all) :
    d.count s q.forCount = .ok (all.length : Int) := by
  obtain ⟨kept, matching, rfl⟩ := select_whole_eq_ok_iff.mp whole
  rw [(stableSort_perm _ kept).length_eq]
  exact bind_eq_ok.mpr ⟨kept, matching, rfl⟩

theorem length_select_le (whole : d.select s q.whole = .ok all) :
    all.length ≤ (d.rows q.entity).length := by
  obtain ⟨kept, matching, rfl⟩ := select_whole_eq_ok_iff.mp whole
  rw [(stableSort_perm _ kept).length_eq]
  obtain ⟨_, _, matching⟩ := bind_eq_ok.mp matching
  obtain ⟨ev, _, matching⟩ := bind_eq_ok.mp matching
  cases matching
  exact List.length_filter_le ..

end Dataset

namespace Request

variable {s : Schema} {c : Settings} {r : Request} {p : Prepared} {d : Dataset}

/-- The request for another page is prepared as well, and differs in the offset alone. -/
theorem prepare_turned {page : Nat} {pager : Pager} (prepared : r.prepare s c = .ok p)
    (turned : r.pager.setPage page = .ok pager) :
    ({ r with pager := pager } : Request).prepare s c =
      .ok { p with select := { p.select with offset := pager.offset } } := by
  obtain ⟨_, rfl⟩ := Pager.setPage_eq_ok_iff.mp turned
  unfold prepare at prepared ⊢
  simp only [bind_eq_ok, pure_eq_ok] at prepared ⊢
  obtain ⟨_, limits, f, hf, plan, hplan, _, valid, order, horder, rfl⟩ := prepared
  exact ⟨_, limits, f, hf, plan, hplan, _, valid, order, horder, rfl⟩

/-- What a prepared request is made of. -/
theorem prepare_parts (prepared : r.prepare s c = .ok p) :
    0 < r.pager.size ∧ p.select.entity = r.entity ∧ p.select.limit = some r.pager.size ∧
      (r.pager.countEnabled = true → p.count = some p.select.forCount) ∧
      ∃ f, s.compileFilter c.nullSafeEquality r.filter r.entity = .ok f ∧
        p.select.forCount = .ofFilter r.entity f := by
  unfold prepare at prepared
  simp only [bind_eq_ok, pure_eq_ok] at prepared
  obtain ⟨_, limits, f, hf, _, _, _, _, _, _, rfl⟩ := prepared
  refine ⟨?_, rfl, rfl, fun counted => if_pos counted, f, hf, rfl⟩
  unfold Pager.validateLimits at limits
  split at limits
  · cases limits
  · split at limits
    · cases limits
    · next positive => exact Nat.pos_of_ne_zero positive

/-- Without anything to fetch a request answers what it selects and, if it counts, the number of
all records. -/
theorem records_eq {items : List Record} {total : Int} (prepared : r.prepare s c = .ok p)
    (noFetch : p.plan.isEmpty = true) (selected : d.select s p.select = .ok items)
    {q : Selection} (counts : p.count = some q) (counted : d.count s q = .ok total) :
    r.records Dataset.store s c d =
      (.ok ⟨items, r.pager.page, r.pager.size, some total⟩, d) := by
  have nothing : (Loading.execute Dataset.store s r.entity p.plan).run items d =
      ((.ok (), items), d) := by
    show (if p.plan.isEmpty || items.isEmpty then pure ()
      else p.plan.paths.forM (Loading.fetchesAt Dataset.store s r.entity p.plan)) items d = _
    rw [noFetch]
    rfl
  unfold records
  rw [prepared]
  refine Resolving.bind_eq_ok.mpr ⟨p, d, rfl, ?_⟩
  refine Resolving.bind_eq_ok.mpr ⟨items, d, congrArg (·, d) selected, ?_⟩
  refine Resolving.bind_eq_ok.mpr ⟨some total, d, ?_, ?_⟩
  · rw [counts]
    exact Resolving.bind_eq_ok.mpr ⟨total, d, congrArg (·, d) counted, rfl⟩
  refine Resolving.bind_eq_ok.mpr ⟨items, d, ?_, rfl⟩
  rw [nothing]
  rfl

/-- What a dataset answers to the request for a page. -/
def Answered (r : Request) (d : Dataset) (s : Schema) (c : Settings) (number : Nat)
    (page : Page Record) : Prop :=
  ∃ pager, r.pager.setPage number = .ok pager ∧
    ({ r with pager := pager } : Request).records Dataset.store s c d = (.ok page, d)

/-- The pages of a request are these, and together they hold all its records. -/
structure Tiled (r : Request) (d : Dataset) (s : Schema) (c : Settings) (all : List Record)
    (pages : List (Page Record)) : Prop where
  /-- The pages are numbered from the first one on. -/
  answered : List.Forall₂ (r.Answered d s c) (List.range' r.pager.firstPage pages.length) pages
  items : pages.flatMap (·.items) = all
  full : ∀ page ∈ pages.dropLast, page.items.length = r.pager.size
  last : ∀ page ∈ pages.getLast?, page.items ≠ []
  /-- What any page says of them, also one that lies beyond. -/
  every : ∀ number pager, r.pager.setPage number = .ok pager →
    ∃ page, r.Answered d s c number page ∧ page.total = some (all.length : Int) ∧
      page.totalPages = some pages.length ∧
      (r.pager.firstPage + pages.length ≤ number → page.items = [])

/-- The page of this number, if it can be asked for. -/
theorem answered_page {all : List Record} (prepared : r.prepare s c = .ok p)
    (noFetch : p.plan.isEmpty = true) (counted : r.pager.countEnabled = true)
    (whole : d.select s p.select.whole = .ok all) {number : Nat} {pager : Pager}
    (turned : r.pager.setPage number = .ok pager) :
    r.Answered d s c number
      ⟨pageOf all ((number - r.pager.firstPage) * r.pager.size) (some r.pager.size), pager.page,
        r.pager.size, some all.length⟩ := by
  obtain ⟨_, entity, limit, counts, _⟩ := prepare_parts prepared
  refine ⟨pager, turned, ?_⟩
  have answer := records_eq (prepare_turned prepared turned) noFetch
    (Dataset.select_part whole pager.offset p.select.limit) (counts counted)
    (Dataset.count_whole whole)
  obtain ⟨_, rfl⟩ := Pager.setPage_eq_ok_iff.mp turned
  rw [limit] at answer
  exact answer

/-- **The pages of a request lose and repeat nothing.** A dataset has no more rows than the largest
offset, so that each of the pages can be asked for. -/
theorem pages_tile_selection (prepared : r.prepare s c = .ok p) (noFetch : p.plan.isEmpty = true)
    (counted : r.pager.countEnabled = true)
    (followable : ∀ j ∈ p.select.joins, j.Followable s)
    (small : (d.rows r.entity).length ≤ Pager.maxOffset) :
    ∃ all pages, d.select s p.select.whole = .ok all ∧ r.Tiled d s c all pages ∧
      Request.count Dataset.store s c r.filter r.entity d = (.ok (all.length : Int), d) := by
  obtain ⟨root, f, hroot, compiled, asks, _⟩ := prepare_asks prepared
  have asksWhole : p.select.whole.Asks root.name f :=
    ⟨asks.entity, asks.joins, asks.predicate, asks.aggregate, asks.groupBy⟩
  obtain ⟨all, whole⟩ := (succeeds_datasetSelect_iff hroot compiled asksWhole d).mpr followable
  obtain ⟨positive, entity, _, _, f', hf', counts⟩ := prepare_parts prepared
  have within : all.length ≤ Pager.maxOffset :=
    (Dataset.length_select_le whole).trans (entity ▸ small)
  have starts {k : Nat} : k < (all.length + r.pager.size - 1) / r.pager.size ↔
      k * r.pager.size < all.length := lt_parts_iff positive
  generalize hn : (all.length + r.pager.size - 1) / r.pager.size = n at starts
  -- The page that comes `k` pages after the first.
  let page (k : Nat) : Page Record :=
    ⟨pageOf all (k * r.pager.size) (some r.pager.size), r.pager.firstPage + k, r.pager.size,
      some all.length⟩
  have count : ((List.range n).map page).length = n := by simp
  refine ⟨all, (List.range n).map page, whole, ⟨?answered, ?items, ?full, ?last, ?every⟩, ?count⟩
  case answered =>
    rw [count, List.range'_eq_map_range, List.forall₂_map_left_iff, List.forall₂_map_right_iff]
    refine List.forall₂_same.mpr fun k hk => ?_
    have start := starts.mp (List.mem_range.mp hk)
    have answer := answered_page prepared noFetch counted whole
      (Pager.setPage_firstPage_add (start.le.trans within))
    rwa [Nat.add_sub_cancel_left] at answer
  case items =>
    rw [List.flatMap_map, flatMap_pageOf]
    exact List.take_of_length_le (Nat.le_of_not_lt (mt starts.mpr (Nat.lt_irrefl n)))
  case full =>
    cases n with
    | zero => nofun
    | succ m =>
      rw [List.range_succ, List.map_append, List.map_singleton, List.dropLast_concat]
      intro _ hpage
      obtain ⟨k, hk, rfl⟩ := List.mem_map.mp hpage
      have next := starts.mp (Nat.succ_lt_succ (List.mem_range.mp hk))
      rw [Nat.succ_mul] at next
      rw [length_pageOf]
      omega
  case last =>
    cases n with
    | zero => nofun
    | succ m =>
      rw [List.range_succ, List.map_append, List.map_singleton, List.getLast?_concat]
      intro _ hpage
      cases hpage
      have start := starts.mp (Nat.lt_succ_self m)
      rw [← List.length_pos_iff, length_pageOf]
      omega
  case every =>
    intro number pager turned
    refine ⟨_, answered_page prepared noFetch counted whole turned, rfl, ?_, fun beyond => ?_⟩
    · rw [count, ← hn]
      simp [Page.totalPages, Nat.ne_of_gt positive]
    · rw [count] at beyond
      have past : ¬ number - r.pager.firstPage < n := by omega
      dsimp only
      exact pageOf_eq_nil (Nat.le_of_not_lt (mt starts.mpr past))
  case count =>
    refine Resolving.bind_eq_ok.mpr ⟨f', d, congrArg (·, d) hf', ?_⟩
    rw [← counts]
    exact congrArg (·, d) (Dataset.count_whole whole)

/-! ### Two books, one on each page -/

namespace ByAuthor

open Dataset.Library

/-- The books of the first author, one on each page, the last one first. -/
def request : Request :=
  ⟨"Book", "author.id:1", (Pager.first 1 false).withSort [⟨"id", .descending⟩], ""⟩

def filter : CompiledFilter :=
  .ofPredicate (some (.leaf
    ⟨.attr ⟨.join 0, .attribute "id" "id"⟩, .eq, false, false, .literal (.int 1)⟩))
    [⟨0, .root, "Book", "author", "author", .entity "Author"⟩]

def selection : Selection :=
  ((Selection.ofFilter "Book" filter).withOrder [⟨"id", "id", .descending⟩]).paged 1 0

def prepared : Prepared := ⟨selection, some selection.forCount, ⟨[]⟩⟩

/-- The books with their authors. -/
def library : Dataset := (books.insert (author (.int 1))).insert (author (.int 2))

theorem compiled : schema.compileFilter true "author.id:1" "Book" = .ok filter := by
  have scanned : scan "author.id:1" = .ok [.word 0 (.plain "author.id:1")] := by rfl
  have words : Formula.ofWords [.word 0 (.plain "author.id:1")] =
      .ok (some (.leaf (.plain "author.id:1"))) := by rfl
  have parsed : Expression.parse (.plain "author.id:1") =
      .ok ⟨"author.id", none, .eq, false, false, .literal "1"⟩ := by rfl
  have segments : Path.segments "author.id" = ["author", "id"] := by rfl
  have resolved : schema.resolve "Book" "author.id" [] =
      (.ok ⟨⟨.join 0, .attribute "id" "id"⟩, .integer, true⟩, filter.joins) := by
    unfold Schema.resolve
    rw [segments]
    rfl
  exact Schema.compileFilter_word rfl scanned words (Schema.compileWord_eq_ok parsed
    (Resolving.bind_eq_ok.mpr ⟨_, _, Resolving.bind_eq_ok.mpr ⟨_, _, resolved, rfl⟩, rfl⟩))

theorem ready : request.prepare schema .default = .ok prepared := by
  unfold prepare
  simp only [bind_eq_ok]
  exact ⟨(), rfl, filter, compiled, ⟨[]⟩, by cbv, (), by cbv, _, rfl, rfl⟩

end ByAuthor

open Dataset.Library (schema) in
theorem pages_tile_selection_byAuthor :
    ByAuthor.request.prepare schema .default = .ok ByAuthor.prepared ∧
    ∃ all pages, ByAuthor.library.select schema ByAuthor.selection.whole = .ok all ∧
      ByAuthor.request.Tiled ByAuthor.library schema .default all pages ∧
      Request.count Dataset.store schema .default "author.id:1" "Book" ByAuthor.library =
        (.ok (all.length : Int), ByAuthor.library) := by
  have followable : ∀ j ∈ ByAuthor.selection.joins, j.Followable schema := by
    intro j hj _ _
    rw [List.mem_singleton.mp hj]
    exact ⟨.identity, rfl⟩
  have small : (ByAuthor.library.rows "Book").length ≤ Pager.maxOffset := by decide +kernel
  exact ⟨ByAuthor.ready, pages_tile_selection ByAuthor.ready rfl rfl followable small⟩

end Request

end EntityQuery
