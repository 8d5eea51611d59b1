import N32905.Lib.Loop

/-!
# TIFF directories

A reader of chained directories, over whatever reads the numbers. A directory is a
count, that many entries of 12 bytes and the offset of the next directory; entries
with a pointer tag lead to directories of their own. The walk keeps the offsets it
has still to visit, so that a loop in the chain is a walk that does not end.
-/

namespace N32905.Lib

structure TiffEntry where
  tag : Nat
  format : Nat
  components : Nat
  value : Nat
  deriving DecidableEq

structure TiffDirectory where
  offset : Nat
  entries : List TiffEntry
  next : Nat
  deriving DecidableEq

def TiffDirectory.size (d : TiffDirectory) : Nat := 2 + 12 * d.entries.length + 4

/-- How numbers are read, by their offset. -/
structure TiffReader where
  u16 : Nat → Nat
  u32 : Nat → Nat

namespace TiffReader

def entry (r : TiffReader) (o : Nat) : TiffEntry where
  tag := r.u16 o
  format := r.u16 (o + 2)
  components := r.u32 (o + 4)
  value := r.u32 (o + 8)

def directory (r : TiffReader) (o : Nat) : TiffDirectory where
  offset := o
  entries := (List.range (r.u16 o)).map fun i => r.entry (o + 2 + 12 * i)
  next := r.u32 (o + 2 + 12 * r.u16 o)

/-- One directory of the walk: its sub-directories come before its successor. The
offset 0 ends a chain. -/
def walk (r : TiffReader) (isPointer : Nat → Bool) :
    List Nat × List TiffDirectory → Step (List Nat × List TiffDirectory) (List TiffDirectory)
  | ([], seen) => .done seen
  | (0 :: todo, seen) => .next (todo, seen)
  | (o :: todo, seen) =>
    let d := r.directory o
    let subs := (d.entries.filter fun e => isPointer e.tag).map TiffEntry.value
    .next (subs ++ d.next :: todo, seen ++ [d])

variable {r : TiffReader} {isPointer : Nat → Bool} {todo : List Nat} {seen : List TiffDirectory}

theorem walk_nil : r.walk isPointer ([], seen) = .done seen := rfl

theorem walk_zero : r.walk isPointer (0 :: todo, seen) = .next (todo, seen) := rfl

theorem walk_directory {o : Nat} {d : TiffDirectory} (ho : o ≠ 0) (h : r.directory o = d) :
    r.walk isPointer (o :: todo, seen) = .next
      ((d.entries.filter fun e => isPointer e.tag).map TiffEntry.value ++ d.next :: todo,
        seen ++ [d]) := by
  subst h
  cases o with
  | zero => exact absurd rfl ho
  | succ o => rfl

end TiffReader

end N32905.Lib
