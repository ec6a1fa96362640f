/-!
# Capitals beyond ASCII

The characters from U+0080 upward that have the Unicode property Uppercase.  Titlecase letters
are not among them.  In many scripts each capital stands right before its small letter, so that
capitals and small letters take turns; these rows have a table of their own.
-/

namespace LaneScript.Text

/-- Code points from U+0080 upward with the property Uppercase, other than those of `capitalPairs`,
as runs for `inRuns`. -/
def uppercaseRuns : List Nat := [
  192, 23, 1, 7, 153, 2, 7, 2, 1, 1, 1, 2, 1, 3, 2, 4, 1, 2, 1, 3, 3, 2, 1, 2, 5, 2, 1, 1, 2, 1, 1,
  2, 1, 3, 1, 1, 1, 2, 3, 1, 7, 1, 2, 1, 2, 1, 38, 1, 2, 1, 1, 3, 65, 2, 1, 2, 2, 1, 1, 4, 303, 1,
  8, 1, 6, 1, 1, 3, 1, 1, 1, 2, 1, 17, 1, 9, 35, 1, 2, 3, 31, 1, 2, 1, 1, 2, 2, 51, 144, 2, 111, 38,
  2889, 38, 1, 1, 5, 1, 722, 86, 2195, 1, 6, 43, 2, 3, 584, 8, 8, 6, 10, 8, 8, 8, 8, 6, 26, 8, 72,
  4, 12, 4, 12, 4, 12, 5, 11, 4, 262, 1, 4, 1, 3, 3, 2, 3, 2, 1, 3, 5, 12, 4, 2, 4, 10, 2, 5, 1, 26,
  16, 19, 1, 818, 26, 1840, 48, 48, 1, 1, 3, 8, 4, 1, 1, 2, 1, 8, 3, 113, 1, 31370, 2, 43, 5, 1, 5,
  15, 4, 1, 1, 1, 2, 40, 1, 22315, 26, 1221, 40, 136, 36, 156, 11, 1, 15, 1, 7, 1, 2, 1770, 51, 157,
  22, 2874, 32, 21888, 32, 64, 25, 25927, 26, 26, 26, 26, 26, 26, 1, 1, 2, 2, 1, 2, 2, 2, 4, 1, 8,
  26, 26, 26, 2, 1, 4, 2, 8, 1, 7, 27, 2, 1, 4, 1, 5, 1, 1, 3, 7, 27, 26, 26, 26, 26, 26, 26, 26,
  26, 26, 26, 26, 30, 25, 33, 25, 33, 25, 33, 25, 33, 25, 33, 1, 4405, 34, 2062, 26, 6, 26, 6, 26]

/-- Rows of a capital and its small letter in turns: the first capital of each row, and how many
capitals there are. -/
def capitalPairs : Array (Nat × Nat) := #[
  (0x100, 28), (0x139, 8), (0x14a, 23), (0x17b, 2), (0x1a2, 2), (0x1cd, 8), (0x1de, 9), (0x1fa, 29),
  (0x248, 4), (0x370, 2), (0x3d8, 12), (0x460, 17), (0x48a, 27), (0x4c3, 6), (0x4d0, 48),
  (0x1e00, 75), (0x1e9e, 49), (0x1f59, 4), (0x2124, 3), (0x2c67, 3), (0x2c82, 49), (0x2ceb, 2),
  (0xa640, 23), (0xa680, 14), (0xa722, 7), (0xa732, 31), (0xa779, 2), (0xa780, 4), (0xa78b, 2),
  (0xa790, 2), (0xa796, 10), (0xa7b6, 7), (0xa7ce, 8)]

end LaneScript.Text
