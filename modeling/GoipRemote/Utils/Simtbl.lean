import GoipRemote.Lib.CString
import GoipRemote.Lib.Res

/-!
# The substitution cipher (`simtbl.c`)

Each character of a text is replaced by its entry in a row of a table, and the row is chosen by the
remainder of the method. The rows of the two tables are inverse to each other (`tables_inverse`), but the
remainder of a negative method is negative: `simtbl_roundTrips_iff` says for which methods a text comes back.
-/

namespace Utils.Simtbl

/-- `encode_tbl`. -/
def encodeTbl : List (List UInt8) := [
  [0x6f, 0x45, 0x6a, 0x6b, 0x76, 0x32, 0x3f, 0x68, 0x3a, 0x54, 0x4d, 0x5b, 0x42, 0x50, 0x7a, 0x77,
   0x5c, 0x64, 0x2d, 0x59, 0x21, 0x37, 0x6c, 0x2e, 0x46, 0x2c, 0x2a, 0x7e, 0x34, 0x5a, 0x3c, 0x51,
   0x4e, 0x7c, 0x3b, 0x69, 0x52, 0x74, 0x41, 0x26, 0x28, 0x5f, 0x4b, 0x25, 0x36, 0x75, 0x70, 0x39,
   0x53, 0x43, 0x23, 0x49, 0x78, 0x66, 0x61, 0x2f, 0x73, 0x6e, 0x35, 0x57, 0x5e, 0x71, 0x6d, 0x3d,
   0x4a, 0x31, 0x47, 0x30, 0x29, 0x2b, 0x4f, 0x7d, 0x44, 0x67, 0x65, 0x27, 0x24, 0x7b, 0x33, 0x56,
   0x72, 0x20, 0x58, 0x5d, 0x62, 0x3e, 0x4c, 0x79, 0x40, 0x60, 0x63, 0x38, 0x48, 0x55, 0x22],
  [0x34, 0x28, 0x3e, 0x58, 0x77, 0x20, 0x37, 0x61, 0x42, 0x6e, 0x2b, 0x54, 0x44, 0x3b, 0x3d, 0x71,
   0x60, 0x23, 0x29, 0x30, 0x39, 0x74, 0x67, 0x26, 0x62, 0x78, 0x27, 0x7a, 0x5b, 0x49, 0x69, 0x66,
   0x7e, 0x2e, 0x22, 0x6d, 0x4c, 0x4f, 0x50, 0x7b, 0x76, 0x36, 0x56, 0x2f, 0x43, 0x3f, 0x64, 0x3c,
   0x4b, 0x38, 0x4e, 0x2a, 0x59, 0x35, 0x33, 0x24, 0x45, 0x75, 0x5f, 0x40, 0x52, 0x46, 0x4d, 0x79,
   0x2c, 0x53, 0x55, 0x5d, 0x72, 0x5e, 0x57, 0x47, 0x7c, 0x6b, 0x73, 0x2d, 0x6a, 0x31, 0x51, 0x48,
   0x4a, 0x41, 0x63, 0x5c, 0x3a, 0x65, 0x32, 0x21, 0x25, 0x70, 0x7d, 0x5a, 0x6c, 0x6f, 0x68],
  [0x4a, 0x62, 0x5f, 0x64, 0x72, 0x53, 0x52, 0x76, 0x67, 0x30, 0x39, 0x2e, 0x3d, 0x2b, 0x32, 0x68,
   0x2c, 0x5b, 0x38, 0x60, 0x48, 0x6c, 0x6a, 0x5c, 0x79, 0x5a, 0x3e, 0x5d, 0x3a, 0x23, 0x50, 0x6e,
   0x55, 0x56, 0x66, 0x61, 0x24, 0x6d, 0x63, 0x70, 0x27, 0x74, 0x73, 0x51, 0x4d, 0x4c, 0x29, 0x26,
   0x44, 0x2a, 0x33, 0x69, 0x47, 0x4f, 0x54, 0x31, 0x36, 0x3f, 0x7a, 0x6f, 0x65, 0x41, 0x58, 0x5e,
   0x22, 0x20, 0x40, 0x49, 0x7d, 0x34, 0x2f, 0x59, 0x37, 0x7b, 0x4b, 0x45, 0x71, 0x6b, 0x75, 0x46,
   0x21, 0x3b, 0x7c, 0x43, 0x78, 0x2d, 0x7e, 0x25, 0x57, 0x4e, 0x35, 0x28, 0x3c, 0x77, 0x42],
  [0x60, 0x3d, 0x20, 0x40, 0x6d, 0x56, 0x3c, 0x2c, 0x5c, 0x23, 0x48, 0x65, 0x35, 0x79, 0x25, 0x21,
   0x30, 0x63, 0x47, 0x24, 0x5f, 0x66, 0x7a, 0x49, 0x4e, 0x6c, 0x41, 0x7b, 0x4c, 0x3a, 0x4d, 0x44,
   0x28, 0x61, 0x64, 0x5d, 0x58, 0x68, 0x2b, 0x31, 0x52, 0x2e, 0x57, 0x7d, 0x4b, 0x7c, 0x78, 0x29,
   0x3e, 0x67, 0x62, 0x54, 0x5e, 0x70, 0x6b, 0x26, 0x50, 0x37, 0x36, 0x4a, 0x22, 0x5b, 0x59, 0x46,
   0x3b, 0x27, 0x73, 0x72, 0x42, 0x2d, 0x38, 0x55, 0x75, 0x7e, 0x76, 0x6a, 0x32, 0x77, 0x3f, 0x43,
   0x2a, 0x53, 0x6f, 0x2f, 0x69, 0x51, 0x45, 0x39, 0x71, 0x74, 0x34, 0x6e, 0x4f, 0x5a, 0x33],
  [0x47, 0x77, 0x70, 0x7b, 0x38, 0x2a, 0x57, 0x71, 0x51, 0x74, 0x56, 0x3f, 0x5d, 0x3a, 0x48, 0x43,
   0x3e, 0x3d, 0x61, 0x2c, 0x4a, 0x4f, 0x40, 0x32, 0x35, 0x5f, 0x3c, 0x6d, 0x52, 0x6e, 0x62, 0x29,
   0x2e, 0x41, 0x44, 0x65, 0x7a, 0x25, 0x39, 0x7c, 0x34, 0x26, 0x54, 0x55, 0x75, 0x7d, 0x28, 0x45,
   0x4b, 0x30, 0x50, 0x37, 0x5b, 0x76, 0x49, 0x5e, 0x46, 0x64, 0x78, 0x3b, 0x59, 0x24, 0x69, 0x33,
   0x53, 0x72, 0x58, 0x5a, 0x73, 0x36, 0x2f, 0x31, 0x4e, 0x5c, 0x67, 0x68, 0x6a, 0x22, 0x79, 0x42,
   0x2d, 0x23, 0x7e, 0x4c, 0x63, 0x66, 0x6f, 0x20, 0x6b, 0x21, 0x4d, 0x2b, 0x60, 0x27, 0x6c],
  [0x5d, 0x51, 0x31, 0x57, 0x62, 0x2d, 0x71, 0x56, 0x76, 0x66, 0x34, 0x47, 0x55, 0x29, 0x6a, 0x64,
   0x7c, 0x75, 0x44, 0x69, 0x2e, 0x2a, 0x3c, 0x68, 0x61, 0x54, 0x3d, 0x7e, 0x7a, 0x43, 0x53, 0x50,
   0x45, 0x6b, 0x2c, 0x21, 0x6f, 0x5a, 0x48, 0x28, 0x33, 0x3f, 0x4d, 0x78, 0x5b, 0x24, 0x46, 0x7b,
   0x5e, 0x38, 0x32, 0x22, 0x39, 0x4a, 0x3a, 0x2f, 0x23, 0x27, 0x60, 0x6e, 0x5c, 0x6d, 0x3e, 0x37,
   0x65, 0x25, 0x52, 0x30, 0x70, 0x77, 0x74, 0x26, 0x7d, 0x41, 0x40, 0x73, 0x49, 0x36, 0x59, 0x4b,
   0x3b, 0x42, 0x2b, 0x4c, 0x5f, 0x4e, 0x72, 0x6c, 0x35, 0x58, 0x63, 0x67, 0x79, 0x4f, 0x20],
  [0x44, 0x5c, 0x23, 0x33, 0x5d, 0x60, 0x2c, 0x3c, 0x6b, 0x29, 0x73, 0x20, 0x7e, 0x49, 0x2e, 0x57,
   0x74, 0x3e, 0x4e, 0x5e, 0x76, 0x25, 0x4d, 0x79, 0x55, 0x62, 0x6c, 0x31, 0x5f, 0x28, 0x45, 0x3d,
   0x68, 0x52, 0x59, 0x5b, 0x56, 0x5a, 0x77, 0x65, 0x3b, 0x7a, 0x71, 0x21, 0x40, 0x2d, 0x24, 0x3a,
   0x32, 0x58, 0x7b, 0x51, 0x61, 0x6f, 0x4f, 0x47, 0x63, 0x70, 0x22, 0x37, 0x75, 0x6a, 0x34, 0x6d,
   0x46, 0x42, 0x50, 0x7d, 0x4b, 0x69, 0x4a, 0x30, 0x2b, 0x26, 0x7c, 0x53, 0x48, 0x43, 0x2a, 0x67,
   0x72, 0x35, 0x6e, 0x39, 0x36, 0x38, 0x66, 0x78, 0x27, 0x4c, 0x41, 0x2f, 0x64, 0x54, 0x3f],
  [0x2b, 0x37, 0x72, 0x3f, 0x28, 0x33, 0x46, 0x21, 0x31, 0x4a, 0x51, 0x58, 0x76, 0x67, 0x78, 0x3b,
   0x53, 0x26, 0x5d, 0x4e, 0x59, 0x6d, 0x69, 0x24, 0x75, 0x3a, 0x35, 0x43, 0x4d, 0x5b, 0x44, 0x5e,
   0x27, 0x38, 0x7d, 0x5f, 0x39, 0x77, 0x7b, 0x23, 0x42, 0x52, 0x61, 0x70, 0x30, 0x3c, 0x7e, 0x6c,
   0x45, 0x32, 0x4c, 0x2e, 0x6e, 0x71, 0x68, 0x74, 0x49, 0x40, 0x2f, 0x41, 0x2c, 0x48, 0x4f, 0x22,
   0x55, 0x2a, 0x5c, 0x54, 0x7c, 0x7a, 0x2d, 0x6b, 0x3e, 0x56, 0x25, 0x79, 0x63, 0x73, 0x47, 0x50,
   0x64, 0x65, 0x62, 0x6f, 0x3d, 0x34, 0x29, 0x20, 0x60, 0x66, 0x36, 0x57, 0x5a, 0x6a, 0x4b],
  [0x41, 0x34, 0x7a, 0x52, 0x36, 0x31, 0x65, 0x56, 0x6c, 0x30, 0x60, 0x6e, 0x28, 0x44, 0x6a, 0x62,
   0x39, 0x2f, 0x45, 0x78, 0x3e, 0x69, 0x38, 0x79, 0x67, 0x55, 0x2a, 0x77, 0x4c, 0x25, 0x4a, 0x63,
   0x3a, 0x23, 0x7b, 0x72, 0x49, 0x40, 0x5d, 0x2c, 0x5a, 0x3f, 0x3c, 0x3d, 0x61, 0x4f, 0x7c, 0x48,
   0x46, 0x59, 0x5e, 0x51, 0x7d, 0x58, 0x75, 0x2d, 0x37, 0x5c, 0x35, 0x33, 0x4b, 0x2e, 0x29, 0x32,
   0x74, 0x64, 0x57, 0x47, 0x42, 0x70, 0x26, 0x6f, 0x5f, 0x50, 0x2b, 0x4e, 0x43, 0x21, 0x76, 0x68,
   0x73, 0x53, 0x24, 0x66, 0x54, 0x4d, 0x20, 0x5b, 0x22, 0x6d, 0x7e, 0x71, 0x3b, 0x6b, 0x27],
  [0x27, 0x7a, 0x25, 0x26, 0x7c, 0x39, 0x4b, 0x2e, 0x3e, 0x66, 0x46, 0x36, 0x2c, 0x58, 0x4e, 0x40,
   0x70, 0x4d, 0x49, 0x64, 0x29, 0x6c, 0x22, 0x72, 0x7e, 0x47, 0x79, 0x42, 0x38, 0x5c, 0x34, 0x5f,
   0x41, 0x5a, 0x20, 0x62, 0x54, 0x6f, 0x55, 0x75, 0x3b, 0x28, 0x37, 0x2d, 0x7b, 0x30, 0x77, 0x68,
   0x7d, 0x2a, 0x48, 0x3f, 0x43, 0x6a, 0x3d, 0x50, 0x24, 0x32, 0x67, 0x60, 0x4c, 0x51, 0x35, 0x5b,
   0x5e, 0x6b, 0x78, 0x74, 0x69, 0x2f, 0x76, 0x6d, 0x44, 0x5d, 0x59, 0x63, 0x71, 0x61, 0x4f, 0x52,
   0x23, 0x56, 0x31, 0x57, 0x4a, 0x6e, 0x3a, 0x3c, 0x53, 0x33, 0x21, 0x45, 0x73, 0x2b, 0x65],
  [0x3e, 0x26, 0x46, 0x32, 0x77, 0x6c, 0x65, 0x60, 0x70, 0x21, 0x4d, 0x72, 0x5f, 0x66, 0x2b, 0x7e,
   0x50, 0x40, 0x22, 0x5b, 0x45, 0x31, 0x7d, 0x34, 0x35, 0x54, 0x62, 0x5a, 0x33, 0x3c, 0x25, 0x4f,
   0x69, 0x78, 0x30, 0x51, 0x24, 0x2f, 0x23, 0x6a, 0x44, 0x2c, 0x71, 0x2a, 0x27, 0x49, 0x4c, 0x76,
   0x41, 0x64, 0x74, 0x5d, 0x61, 0x39, 0x3b, 0x79, 0x6f, 0x47, 0x6b, 0x36, 0x52, 0x3a, 0x63, 0x68,
   0x37, 0x4a, 0x75, 0x2d, 0x57, 0x4e, 0x3f, 0x55, 0x58, 0x48, 0x3d, 0x53, 0x20, 0x7a, 0x5c, 0x5e,
   0x4b, 0x6e, 0x7c, 0x56, 0x43, 0x73, 0x28, 0x59, 0x7b, 0x67, 0x38, 0x29, 0x2e, 0x6d, 0x42],
  [0x25, 0x31, 0x66, 0x6d, 0x72, 0x6f, 0x21, 0x75, 0x43, 0x2c, 0x7b, 0x28, 0x26, 0x4d, 0x70, 0x47,
   0x4b, 0x78, 0x4f, 0x2d, 0x37, 0x41, 0x3b, 0x40, 0x33, 0x38, 0x3e, 0x58, 0x27, 0x48, 0x2f, 0x34,
   0x54, 0x59, 0x46, 0x63, 0x56, 0x5d, 0x67, 0x42, 0x6a, 0x20, 0x64, 0x3a, 0x4e, 0x76, 0x53, 0x5b,
   0x29, 0x30, 0x3d, 0x35, 0x65, 0x7e, 0x7a, 0x51, 0x2e, 0x5c, 0x6e, 0x55, 0x39, 0x7c, 0x73, 0x5e,
   0x36, 0x79, 0x5f, 0x68, 0x57, 0x5a, 0x3f, 0x60, 0x69, 0x50, 0x4c, 0x2b, 0x6b, 0x23, 0x2a, 0x45,
   0x61, 0x22, 0x3c, 0x62, 0x49, 0x77, 0x44, 0x32, 0x4a, 0x74, 0x7d, 0x6c, 0x24, 0x71, 0x52],
  [0x3b, 0x28, 0x79, 0x3d, 0x43, 0x3c, 0x2b, 0x2c, 0x36, 0x25, 0x51, 0x76, 0x41, 0x34, 0x3f, 0x33,
   0x55, 0x52, 0x70, 0x73, 0x45, 0x54, 0x7d, 0x4f, 0x63, 0x31, 0x65, 0x20, 0x4d, 0x6e, 0x7a, 0x6b,
   0x32, 0x37, 0x44, 0x7e, 0x2a, 0x66, 0x4a, 0x6a, 0x5f, 0x42, 0x64, 0x27, 0x72, 0x39, 0x22, 0x5e,
   0x4c, 0x3a, 0x56, 0x6c, 0x67, 0x69, 0x74, 0x78, 0x7c, 0x40, 0x3e, 0x47, 0x62, 0x5c, 0x26, 0x2d,
   0x35, 0x53, 0x2e, 0x24, 0x4b, 0x30, 0x46, 0x60, 0x2f, 0x5a, 0x6f, 0x58, 0x77, 0x49, 0x7b, 0x5d,
   0x6d, 0x68, 0x48, 0x29, 0x38, 0x57, 0x21, 0x50, 0x4e, 0x61, 0x23, 0x71, 0x59, 0x5b, 0x75],
  [0x51, 0x46, 0x48, 0x55, 0x38, 0x6f, 0x21, 0x57, 0x78, 0x5c, 0x79, 0x35, 0x34, 0x26, 0x36, 0x5e,
   0x5a, 0x4f, 0x66, 0x2c, 0x64, 0x54, 0x2b, 0x30, 0x61, 0x27, 0x62, 0x28, 0x50, 0x39, 0x40, 0x76,
   0x31, 0x47, 0x2a, 0x56, 0x41, 0x6a, 0x33, 0x32, 0x63, 0x6d, 0x3f, 0x52, 0x7b, 0x45, 0x2d, 0x65,
   0x70, 0x2f, 0x2e, 0x7a, 0x42, 0x6c, 0x5d, 0x49, 0x77, 0x23, 0x5f, 0x3b, 0x43, 0x7d, 0x75, 0x3d,
   0x58, 0x4e, 0x7c, 0x68, 0x24, 0x22, 0x74, 0x72, 0x3a, 0x44, 0x59, 0x60, 0x7e, 0x25, 0x6b, 0x4a,
   0x20, 0x73, 0x37, 0x5b, 0x4d, 0x4b, 0x69, 0x67, 0x53, 0x29, 0x3e, 0x4c, 0x6e, 0x71, 0x3c],
  [0x68, 0x20, 0x69, 0x60, 0x32, 0x49, 0x40, 0x25, 0x75, 0x79, 0x28, 0x65, 0x71, 0x55, 0x27, 0x47,
   0x5c, 0x5d, 0x37, 0x33, 0x5e, 0x2a, 0x73, 0x26, 0x74, 0x3d, 0x2f, 0x63, 0x78, 0x77, 0x64, 0x59,
   0x2e, 0x7c, 0x24, 0x6a, 0x66, 0x5b, 0x72, 0x38, 0x51, 0x46, 0x4c, 0x30, 0x6d, 0x42, 0x58, 0x3c,
   0x3f, 0x4a, 0x3a, 0x7d, 0x4f, 0x3b, 0x5f, 0x45, 0x70, 0x7e, 0x7a, 0x39, 0x54, 0x31, 0x76, 0x35,
   0x5a, 0x6e, 0x21, 0x34, 0x2d, 0x7b, 0x53, 0x41, 0x61, 0x6b, 0x43, 0x23, 0x3e, 0x48, 0x62, 0x36,
   0x57, 0x4d, 0x2c, 0x22, 0x2b, 0x44, 0x4e, 0x4b, 0x6c, 0x29, 0x56, 0x50, 0x6f, 0x52, 0x67],
  [0x7e, 0x5b, 0x5a, 0x3d, 0x5d, 0x4d, 0x2b, 0x6a, 0x3b, 0x6b, 0x37, 0x3e, 0x45, 0x7a, 0x69, 0x54,
   0x44, 0x6f, 0x6c, 0x7d, 0x2d, 0x51, 0x26, 0x3a, 0x2e, 0x72, 0x47, 0x4b, 0x50, 0x74, 0x57, 0x3c,
   0x31, 0x43, 0x53, 0x2f, 0x79, 0x4c, 0x4e, 0x70, 0x30, 0x68, 0x49, 0x61, 0x48, 0x7b, 0x35, 0x34,
   0x22, 0x65, 0x27, 0x4a, 0x32, 0x58, 0x40, 0x75, 0x52, 0x23, 0x4f, 0x39, 0x41, 0x24, 0x6d, 0x59,
   0x5e, 0x73, 0x76, 0x62, 0x3f, 0x7c, 0x46, 0x2c, 0x6e, 0x78, 0x77, 0x5c, 0x25, 0x67, 0x56, 0x64,
   0x28, 0x36, 0x20, 0x63, 0x38, 0x55, 0x29, 0x33, 0x21, 0x60, 0x5f, 0x2a, 0x66, 0x71, 0x42]]

/-- `decode_tbl`. -/
def decodeTbl : List (List UInt8) := [
  [0x71, 0x34, 0x7e, 0x52, 0x6c, 0x4b, 0x47, 0x6b, 0x48, 0x64, 0x3a, 0x65, 0x39, 0x32, 0x37, 0x57,
   0x63, 0x61, 0x25, 0x6e, 0x3c, 0x5a, 0x4c, 0x35, 0x7b, 0x4f, 0x28, 0x42, 0x3e, 0x5f, 0x75, 0x26,
   0x78, 0x46, 0x2c, 0x51, 0x68, 0x21, 0x38, 0x62, 0x7c, 0x53, 0x60, 0x4a, 0x76, 0x2a, 0x40, 0x66,
   0x2d, 0x3f, 0x44, 0x50, 0x29, 0x7d, 0x6f, 0x5b, 0x72, 0x33, 0x3d, 0x2b, 0x30, 0x73, 0x5c, 0x49,
   0x79, 0x56, 0x74, 0x7a, 0x31, 0x6a, 0x55, 0x69, 0x27, 0x43, 0x22, 0x23, 0x36, 0x5e, 0x59, 0x20,
   0x4e, 0x5d, 0x70, 0x58, 0x45, 0x4d, 0x24, 0x2f, 0x54, 0x77, 0x2e, 0x6d, 0x41, 0x67, 0x3b],
  [0x25, 0x77, 0x42, 0x31, 0x57, 0x78, 0x37, 0x3a, 0x21, 0x32, 0x53, 0x2a, 0x60, 0x6b, 0x41, 0x4b,
   0x33, 0x6d, 0x76, 0x56, 0x20, 0x55, 0x49, 0x26, 0x51, 0x34, 0x74, 0x2d, 0x4f, 0x2e, 0x22, 0x4d,
   0x5b, 0x71, 0x28, 0x4c, 0x2c, 0x58, 0x5d, 0x67, 0x6f, 0x3d, 0x70, 0x50, 0x44, 0x5e, 0x52, 0x45,
   0x46, 0x6e, 0x5c, 0x61, 0x2b, 0x62, 0x4a, 0x66, 0x23, 0x54, 0x7b, 0x3c, 0x73, 0x63, 0x65, 0x5a,
   0x30, 0x27, 0x38, 0x72, 0x4e, 0x75, 0x3f, 0x36, 0x7e, 0x3e, 0x6c, 0x69, 0x7c, 0x43, 0x29, 0x7d,
   0x79, 0x2f, 0x64, 0x6a, 0x35, 0x59, 0x48, 0x24, 0x39, 0x5f, 0x3b, 0x47, 0x68, 0x7a, 0x40],
  [0x61, 0x70, 0x60, 0x3d, 0x44, 0x77, 0x4f, 0x48, 0x7b, 0x4e, 0x51, 0x2d, 0x30, 0x75, 0x2b, 0x66,
   0x29, 0x57, 0x2e, 0x52, 0x65, 0x7a, 0x58, 0x68, 0x32, 0x2a, 0x3c, 0x71, 0x7c, 0x2c, 0x3a, 0x59,
   0x62, 0x5d, 0x7e, 0x73, 0x50, 0x6b, 0x6f, 0x54, 0x34, 0x63, 0x20, 0x6a, 0x4d, 0x4c, 0x79, 0x55,
   0x3e, 0x4b, 0x26, 0x25, 0x56, 0x40, 0x41, 0x78, 0x5e, 0x67, 0x39, 0x31, 0x37, 0x3b, 0x5f, 0x22,
   0x33, 0x43, 0x21, 0x46, 0x23, 0x5c, 0x42, 0x28, 0x2f, 0x53, 0x36, 0x6d, 0x35, 0x45, 0x3f, 0x5b,
   0x47, 0x6c, 0x24, 0x4a, 0x49, 0x6e, 0x27, 0x7d, 0x74, 0x38, 0x5a, 0x69, 0x72, 0x64, 0x76],
  [0x22, 0x2f, 0x5c, 0x29, 0x33, 0x2e, 0x57, 0x61, 0x40, 0x4f, 0x70, 0x46, 0x27, 0x65, 0x49, 0x73,
   0x30, 0x47, 0x6c, 0x7e, 0x7a, 0x2c, 0x5a, 0x59, 0x66, 0x77, 0x3d, 0x60, 0x26, 0x21, 0x50, 0x6e,
   0x23, 0x3a, 0x64, 0x6f, 0x3f, 0x76, 0x5f, 0x32, 0x2a, 0x37, 0x5b, 0x4c, 0x3c, 0x3e, 0x38, 0x7c,
   0x58, 0x75, 0x48, 0x71, 0x53, 0x67, 0x25, 0x4a, 0x44, 0x5e, 0x7d, 0x5d, 0x28, 0x43, 0x54, 0x34,
   0x20, 0x41, 0x52, 0x31, 0x42, 0x2b, 0x35, 0x51, 0x45, 0x74, 0x6b, 0x56, 0x39, 0x24, 0x7b, 0x72,
   0x55, 0x78, 0x63, 0x62, 0x79, 0x68, 0x6a, 0x6d, 0x4e, 0x2d, 0x36, 0x3b, 0x4d, 0x4b, 0x69],
  [0x77, 0x79, 0x6d, 0x71, 0x5d, 0x45, 0x49, 0x7d, 0x4e, 0x3f, 0x25, 0x7b, 0x33, 0x70, 0x40, 0x66,
   0x51, 0x67, 0x37, 0x5f, 0x48, 0x38, 0x65, 0x53, 0x24, 0x46, 0x2d, 0x5b, 0x3a, 0x31, 0x30, 0x2b,
   0x36, 0x41, 0x6f, 0x2f, 0x42, 0x4f, 0x58, 0x20, 0x2e, 0x56, 0x34, 0x50, 0x73, 0x7a, 0x68, 0x35,
   0x52, 0x28, 0x3c, 0x60, 0x4a, 0x4b, 0x2a, 0x26, 0x62, 0x5c, 0x63, 0x54, 0x69, 0x2c, 0x57, 0x39,
   0x7c, 0x32, 0x3e, 0x74, 0x59, 0x43, 0x75, 0x6a, 0x6b, 0x5e, 0x6c, 0x78, 0x7e, 0x3b, 0x3d, 0x76,
   0x22, 0x27, 0x61, 0x64, 0x29, 0x4c, 0x55, 0x21, 0x5a, 0x6e, 0x44, 0x23, 0x47, 0x4d, 0x72],
  [0x7e, 0x43, 0x53, 0x58, 0x4d, 0x61, 0x67, 0x59, 0x47, 0x2d, 0x35, 0x72, 0x42, 0x25, 0x34, 0x57,
   0x63, 0x22, 0x52, 0x48, 0x2a, 0x78, 0x6d, 0x5f, 0x51, 0x54, 0x56, 0x70, 0x36, 0x3a, 0x5e, 0x49,
   0x6a, 0x69, 0x71, 0x3d, 0x32, 0x40, 0x4e, 0x2b, 0x46, 0x6c, 0x55, 0x6f, 0x73, 0x4a, 0x75, 0x7d,
   0x3f, 0x21, 0x62, 0x3e, 0x39, 0x2c, 0x27, 0x23, 0x79, 0x6e, 0x45, 0x4c, 0x5c, 0x20, 0x50, 0x74,
   0x5a, 0x38, 0x24, 0x7a, 0x2f, 0x60, 0x29, 0x7b, 0x37, 0x33, 0x2e, 0x41, 0x77, 0x5d, 0x5b, 0x44,
   0x64, 0x26, 0x76, 0x6b, 0x66, 0x31, 0x28, 0x65, 0x4b, 0x7c, 0x3c, 0x4f, 0x30, 0x68, 0x3b],
  [0x2b, 0x4b, 0x5a, 0x22, 0x4e, 0x35, 0x69, 0x78, 0x3d, 0x29, 0x6e, 0x68, 0x26, 0x4d, 0x2e, 0x7b,
   0x67, 0x3b, 0x50, 0x23, 0x5e, 0x71, 0x74, 0x5b, 0x75, 0x73, 0x4f, 0x48, 0x27, 0x3f, 0x31, 0x7e,
   0x4c, 0x7a, 0x61, 0x6d, 0x20, 0x3e, 0x60, 0x57, 0x6c, 0x2d, 0x66, 0x64, 0x79, 0x36, 0x32, 0x56,
   0x62, 0x53, 0x41, 0x6b, 0x7d, 0x38, 0x44, 0x2f, 0x51, 0x42, 0x45, 0x43, 0x21, 0x24, 0x33, 0x3c,
   0x25, 0x54, 0x39, 0x58, 0x7c, 0x47, 0x76, 0x6f, 0x40, 0x65, 0x5d, 0x28, 0x3a, 0x5f, 0x72, 0x55,
   0x59, 0x4a, 0x70, 0x2a, 0x30, 0x5c, 0x34, 0x46, 0x77, 0x37, 0x49, 0x52, 0x6a, 0x63, 0x2c],
  [0x77, 0x27, 0x5f, 0x47, 0x37, 0x6a, 0x31, 0x40, 0x24, 0x76, 0x61, 0x20, 0x5c, 0x66, 0x53, 0x5a,
   0x4c, 0x28, 0x51, 0x25, 0x75, 0x3a, 0x7a, 0x21, 0x41, 0x44, 0x39, 0x2f, 0x4d, 0x74, 0x68, 0x23,
   0x59, 0x5b, 0x48, 0x3b, 0x3e, 0x50, 0x26, 0x6e, 0x5d, 0x58, 0x29, 0x7e, 0x52, 0x3c, 0x33, 0x5e,
   0x6f, 0x2a, 0x49, 0x30, 0x63, 0x60, 0x69, 0x7b, 0x2b, 0x34, 0x7c, 0x3d, 0x62, 0x32, 0x3f, 0x43,
   0x78, 0x4a, 0x72, 0x6c, 0x70, 0x71, 0x79, 0x2d, 0x56, 0x36, 0x7d, 0x67, 0x4f, 0x35, 0x54, 0x73,
   0x4b, 0x55, 0x22, 0x6d, 0x57, 0x38, 0x2c, 0x45, 0x2e, 0x6b, 0x65, 0x46, 0x64, 0x42, 0x4e],
  [0x76, 0x6d, 0x78, 0x41, 0x72, 0x3d, 0x66, 0x7e, 0x2c, 0x5e, 0x3a, 0x6a, 0x47, 0x57, 0x5d, 0x31,
   0x29, 0x25, 0x5f, 0x5b, 0x21, 0x5a, 0x24, 0x58, 0x36, 0x30, 0x40, 0x7c, 0x4a, 0x4b, 0x34, 0x49,
   0x45, 0x20, 0x64, 0x6c, 0x2d, 0x32, 0x50, 0x63, 0x4f, 0x44, 0x3e, 0x5c, 0x3c, 0x75, 0x6b, 0x4d,
   0x69, 0x53, 0x23, 0x71, 0x74, 0x39, 0x27, 0x62, 0x55, 0x51, 0x48, 0x77, 0x59, 0x46, 0x52, 0x68,
   0x2a, 0x4c, 0x2f, 0x3f, 0x61, 0x26, 0x73, 0x38, 0x6f, 0x35, 0x2e, 0x7d, 0x28, 0x79, 0x2b, 0x67,
   0x65, 0x7b, 0x43, 0x70, 0x60, 0x56, 0x6e, 0x3b, 0x33, 0x37, 0x22, 0x42, 0x4e, 0x54, 0x7a],
  [0x42, 0x7a, 0x36, 0x70, 0x58, 0x22, 0x23, 0x20, 0x49, 0x34, 0x51, 0x7d, 0x2c, 0x4b, 0x27, 0x65,
   0x4d, 0x72, 0x59, 0x79, 0x3e, 0x5e, 0x2b, 0x4a, 0x3c, 0x25, 0x76, 0x48, 0x77, 0x56, 0x28, 0x53,
   0x2f, 0x40, 0x3b, 0x54, 0x68, 0x7b, 0x2a, 0x39, 0x52, 0x32, 0x74, 0x26, 0x5c, 0x31, 0x2e, 0x6e,
   0x57, 0x5d, 0x6f, 0x78, 0x44, 0x46, 0x71, 0x73, 0x2d, 0x6a, 0x41, 0x5f, 0x3d, 0x69, 0x60, 0x3f,
   0x5b, 0x6d, 0x43, 0x6b, 0x33, 0x7e, 0x29, 0x5a, 0x4f, 0x64, 0x55, 0x61, 0x35, 0x67, 0x75, 0x45,
   0x30, 0x6c, 0x37, 0x7c, 0x63, 0x47, 0x66, 0x4e, 0x62, 0x3a, 0x21, 0x4c, 0x24, 0x50, 0x38],
  [0x6c, 0x29, 0x32, 0x46, 0x44, 0x3e, 0x21, 0x4c, 0x76, 0x7b, 0x4b, 0x2e, 0x49, 0x63, 0x7c, 0x45,
   0x42, 0x35, 0x23, 0x3c, 0x37, 0x38, 0x5b, 0x60, 0x7a, 0x55, 0x5d, 0x56, 0x3d, 0x6a, 0x20, 0x66,
   0x31, 0x50, 0x7e, 0x74, 0x48, 0x34, 0x22, 0x59, 0x69, 0x4d, 0x61, 0x70, 0x4e, 0x2a, 0x65, 0x3f,
   0x30, 0x43, 0x5c, 0x6b, 0x39, 0x67, 0x73, 0x64, 0x68, 0x77, 0x3b, 0x33, 0x6e, 0x53, 0x6f, 0x2c,
   0x27, 0x54, 0x3a, 0x5e, 0x51, 0x26, 0x2d, 0x79, 0x5f, 0x40, 0x47, 0x5a, 0x25, 0x7d, 0x71, 0x58,
   0x28, 0x4a, 0x2b, 0x75, 0x52, 0x62, 0x4f, 0x24, 0x41, 0x57, 0x6d, 0x78, 0x72, 0x36, 0x2f],
  [0x49, 0x26, 0x71, 0x6d, 0x7c, 0x20, 0x2c, 0x3c, 0x2b, 0x50, 0x6e, 0x6b, 0x29, 0x33, 0x58, 0x3e,
   0x51, 0x21, 0x77, 0x38, 0x3f, 0x53, 0x60, 0x34, 0x39, 0x5c, 0x4b, 0x36, 0x72, 0x52, 0x3a, 0x66,
   0x37, 0x35, 0x47, 0x28, 0x76, 0x6f, 0x42, 0x2f, 0x3d, 0x74, 0x78, 0x30, 0x6a, 0x2d, 0x4c, 0x32,
   0x69, 0x57, 0x7e, 0x4e, 0x40, 0x5b, 0x44, 0x64, 0x3b, 0x41, 0x65, 0x4f, 0x59, 0x45, 0x5f, 0x62,
   0x67, 0x70, 0x73, 0x43, 0x4a, 0x54, 0x22, 0x46, 0x63, 0x68, 0x48, 0x6c, 0x7b, 0x23, 0x5a, 0x25,
   0x2e, 0x7d, 0x24, 0x5e, 0x79, 0x27, 0x4d, 0x75, 0x31, 0x61, 0x56, 0x2a, 0x5d, 0x7a, 0x55],
  [0x3b, 0x76, 0x4e, 0x7a, 0x63, 0x29, 0x5e, 0x4b, 0x21, 0x73, 0x44, 0x26, 0x27, 0x5f, 0x62, 0x68,
   0x65, 0x39, 0x40, 0x2f, 0x2d, 0x60, 0x28, 0x41, 0x74, 0x4d, 0x51, 0x20, 0x25, 0x23, 0x5a, 0x2e,
   0x59, 0x2c, 0x49, 0x24, 0x42, 0x34, 0x66, 0x5b, 0x72, 0x6d, 0x46, 0x64, 0x50, 0x3c, 0x78, 0x37,
   0x77, 0x2a, 0x31, 0x61, 0x35, 0x30, 0x52, 0x75, 0x6b, 0x7c, 0x69, 0x7d, 0x5d, 0x6f, 0x4f, 0x48,
   0x67, 0x79, 0x5c, 0x38, 0x4a, 0x3a, 0x45, 0x54, 0x71, 0x55, 0x47, 0x3f, 0x53, 0x70, 0x3d, 0x6a,
   0x32, 0x7b, 0x4c, 0x33, 0x56, 0x7e, 0x2b, 0x6c, 0x57, 0x22, 0x3e, 0x6e, 0x58, 0x36, 0x43],
  [0x70, 0x26, 0x65, 0x59, 0x64, 0x6d, 0x2d, 0x39, 0x3b, 0x79, 0x42, 0x36, 0x33, 0x4e, 0x52, 0x51,
   0x37, 0x40, 0x47, 0x46, 0x2c, 0x2b, 0x2e, 0x72, 0x24, 0x3d, 0x68, 0x5b, 0x7e, 0x5f, 0x7a, 0x4a,
   0x3e, 0x44, 0x54, 0x5c, 0x69, 0x4d, 0x21, 0x41, 0x22, 0x57, 0x6f, 0x75, 0x7b, 0x74, 0x61, 0x31,
   0x3c, 0x20, 0x4b, 0x78, 0x35, 0x23, 0x43, 0x27, 0x60, 0x6a, 0x30, 0x73, 0x29, 0x56, 0x2f, 0x5a,
   0x6b, 0x38, 0x3a, 0x48, 0x34, 0x4f, 0x32, 0x77, 0x63, 0x76, 0x45, 0x6e, 0x55, 0x49, 0x7c, 0x25,
   0x50, 0x7d, 0x67, 0x71, 0x66, 0x5e, 0x3f, 0x58, 0x28, 0x2a, 0x53, 0x4c, 0x62, 0x5d, 0x6c],
  [0x21, 0x62, 0x73, 0x6b, 0x42, 0x27, 0x37, 0x2e, 0x2a, 0x79, 0x35, 0x74, 0x72, 0x64, 0x40, 0x3a,
   0x4b, 0x5d, 0x24, 0x33, 0x63, 0x5f, 0x6f, 0x32, 0x47, 0x5b, 0x52, 0x55, 0x4f, 0x39, 0x6c, 0x50,
   0x26, 0x67, 0x4d, 0x6a, 0x75, 0x57, 0x49, 0x2f, 0x6d, 0x25, 0x51, 0x77, 0x4a, 0x71, 0x76, 0x54,
   0x7b, 0x48, 0x7d, 0x66, 0x5c, 0x2d, 0x7a, 0x70, 0x4e, 0x3f, 0x60, 0x45, 0x30, 0x31, 0x34, 0x56,
   0x23, 0x68, 0x6e, 0x3b, 0x3e, 0x2b, 0x44, 0x7e, 0x20, 0x22, 0x43, 0x69, 0x78, 0x4c, 0x61, 0x7c,
   0x58, 0x2c, 0x46, 0x36, 0x38, 0x28, 0x5e, 0x3d, 0x3c, 0x29, 0x5a, 0x65, 0x41, 0x53, 0x59],
  [0x72, 0x78, 0x50, 0x59, 0x5d, 0x6c, 0x36, 0x52, 0x70, 0x76, 0x7b, 0x26, 0x67, 0x34, 0x38, 0x43,
   0x48, 0x40, 0x54, 0x77, 0x4f, 0x4e, 0x71, 0x2a, 0x74, 0x5b, 0x37, 0x28, 0x3f, 0x23, 0x2b, 0x64,
   0x56, 0x5c, 0x7e, 0x41, 0x30, 0x2c, 0x66, 0x3a, 0x4c, 0x4a, 0x53, 0x3b, 0x45, 0x25, 0x46, 0x5a,
   0x3c, 0x35, 0x58, 0x42, 0x2f, 0x75, 0x6e, 0x3e, 0x55, 0x5f, 0x22, 0x21, 0x6b, 0x24, 0x60, 0x7a,
   0x79, 0x4b, 0x63, 0x73, 0x6f, 0x51, 0x7c, 0x6d, 0x49, 0x2e, 0x27, 0x29, 0x32, 0x5e, 0x68, 0x31,
   0x47, 0x7d, 0x39, 0x61, 0x3d, 0x57, 0x62, 0x6a, 0x69, 0x44, 0x2d, 0x4d, 0x65, 0x33, 0x20]]

/-! ## Substituting -/

/-- `tbl[row][column]`. -/
def entry (tbl : List (List UInt8)) (row : Int) (column : Nat) : Res UInt8 :=
  if row < 0 then .fault
  else
    match tbl[row.toNat]? with
    | none => .fault
    | some cells =>
      match cells[column]? with
      | none => .fault
      | some b => .ok b

/-- The loop of the two functions, with the characters from `as_input[i]` to the terminator: what is returned,
and the bytes that are stored from `as_output[i]` on. -/
def substitute (tbl : List (List UInt8)) (row : Int) : List UInt8 → Res (Int × List UInt8)
  | [] => .ok (0, [0])
  | c :: input =>
    -- a `char` from 0x80 on is negative
    if c < 0x20 ∨ c > 0x7e then .ok (-1, [])
    else do
      let b ← entry tbl row (c.toNat - 0x20)
      let (res, output) ← substitute tbl row input
      return (res, b :: output)

/-- `simtbl_encode`. -/
def simtblEncode (aiMethod : Int) (input : List UInt8) : Res (Int × List UInt8) :=
  substitute encodeTbl (aiMethod.tmod 16) input

/-- `simtbl_decode`. -/
def simtblDecode (aiMethod : Int) (input : List UInt8) : Res (Int × List UInt8) :=
  substitute decodeTbl (aiMethod.tmod 16) input

/-! ## The round trip -/

/-- The characters of the two tables. -/
def Printable (b : UInt8) : Prop := 0x20 ≤ b ∧ b ≤ 0x7e

instance (b : UInt8) : Decidable (Printable b) := inferInstanceAs (Decidable (_ ∧ _))

/-- Each row of the one table undoes that of the other, and stays among the characters. -/
theorem tables_inverse : ∀ rows ∈ encodeTbl.zip decodeTbl,
    rows.1.map (fun b => if Printable b then rows.2[b.toNat - 0x20]? else none) =
      (List.range 95).map fun column => some (UInt8.ofNat (column + 0x20)) := by decide +kernel

theorem entry_eq_ok {tbl : List (List UInt8)} {row column : Nat} {b : UInt8} {cells : List UInt8}
    (hrow : tbl[row]? = some cells) (hcell : cells[column]? = some b) : entry tbl row column = .ok b := by
  have hpos : ¬(row : Int) < 0 := by omega
  unfold entry
  rw [if_neg hpos, Int.toNat_natCast, hrow]
  simp only [hcell]

/-- A character is encoded as one that is decoded as the character. -/
theorem entry_inverse {row : Nat} (hrow : row < 16) {c : UInt8} (hc : Printable c) :
    ∃ b, entry encodeTbl row (c.toNat - 0x20) = .ok b ∧ Printable b ∧
      entry decodeTbl row (b.toNat - 0x20) = .ok c := by
  obtain ⟨enc, henc⟩ : ∃ cells, encodeTbl[row]? = some cells :=
    ⟨_, List.getElem?_eq_getElem (show row < encodeTbl.length from hrow)⟩
  obtain ⟨dec, hdec⟩ : ∃ cells, decodeTbl[row]? = some cells :=
    ⟨_, List.getElem?_eq_getElem (show row < decodeTbl.length from hrow)⟩
  have hmem : (enc, dec) ∈ encodeTbl.zip decodeTbl :=
    List.mem_of_getElem? (List.getElem?_zip_eq_some.2 ⟨henc, hdec⟩)
  have hbounds : 0x20 ≤ c.toNat ∧ c.toNat ≤ 0x7e := hc
  have hcell := congrArg (fun l => l[c.toNat - 0x20]?) (tables_inverse _ hmem)
  have hcolumn : c.toNat - 0x20 < 95 := by omega
  simp only [List.getElem?_map, List.getElem?_range hcolumn, Option.map_some] at hcell
  obtain ⟨b, hb, hval⟩ := Option.map_eq_some_iff.1 hcell
  by_cases hprint : Printable b
  · rw [if_pos hprint, Nat.sub_add_cancel hbounds.1, UInt8.ofNat_toNat] at hval
    exact ⟨b, entry_eq_ok henc hb, hprint, entry_eq_ok hdec hval⟩
  · rw [if_neg hprint] at hval
    cases hval

theorem substitute_cons {tbl : List (List UInt8)} {row : Int} {c : UInt8} (hc : Printable c)
    (input : List UInt8) : substitute tbl row (c :: input) = entry tbl row (c.toNat - 0x20) >>= fun b =>
      substitute tbl row input >>= fun out => .ok (out.1, b :: out.2) := by
  have hrange : ¬(c < 0x20 ∨ c > 0x7e) := by
    rw [not_or, UInt8.not_lt, UInt8.not_lt]
    exact hc
  rw [substitute, if_neg hrange]
  rfl

/-- A text comes back from a row of the tables. -/
theorem substitute_inverse {row : Nat} (hrow : row < 16) {text : List UInt8}
    (htext : ∀ c ∈ text, Printable c) :
    ∃ out, substitute encodeTbl row text = .ok (0, out ++ [0]) ∧ out.length = text.length ∧
      (∀ b ∈ out, Printable b) ∧ substitute decodeTbl row out = .ok (0, text ++ [0]) := by
  induction text with
  | nil => exact ⟨[], rfl, rfl, by simp, rfl⟩
  | cons c text ih =>
    obtain ⟨out, henc, hlen, hout, hdec⟩ := ih fun b hb => htext b (List.mem_cons_of_mem _ hb)
    have hc := htext c List.mem_cons_self
    obtain ⟨b, hb, hprint, hback⟩ := entry_inverse hrow hc
    refine ⟨b :: out, ?_, by simp [hlen], ?_, ?_⟩
    · rw [substitute_cons hc, hb, Res.ok_bind, henc]
      rfl
    · intro x hx
      cases List.mem_cons.1 hx with
      | inl h => exact h ▸ hprint
      | inr h => exact hout x h
    · rw [substitute_cons hprint, hback, Res.ok_bind, hdec]
      rfl

/-- A negative row is outside of the table, which the first character finds out. -/
theorem substitute_negative {tbl : List (List UInt8)} {row : Int} (hrow : row < 0) {c : UInt8}
    {input : List UInt8} (hc : Printable c) : substitute tbl row (c :: input) = .fault := by
  rw [substitute_cons hc, entry, if_pos hrow]
  rfl

/-- What the cipher is for: the rows that are used are those of the tables, the encoded text is a text of the
same characters and length, and it is decoded as the text. -/
def RoundTrips (aiMethod : Int) (text : List UInt8) : Prop :=
  (text ≠ [] → 0 ≤ aiMethod.tmod 16 ∧ aiMethod.tmod 16 < 16) ∧
    ∃ out, simtblEncode aiMethod text = .ok (0, out ++ [0]) ∧ out.length = text.length ∧
      (∀ b ∈ out, Printable b) ∧ simtblDecode aiMethod out = .ok (0, text ++ [0])

/-- The remainder of C has the sign of the dividend. -/
theorem tmod_nonneg_iff {n : Int} : 0 ≤ n.tmod 16 ↔ 0 ≤ n ∨ 16 ∣ n := by
  by_cases hn : 0 ≤ n
  · rw [Int.tmod_eq_emod_of_nonneg hn]
    omega
  · have hneg : n.tmod 16 = -((-n) % 16) := by
      rw [← Int.tmod_eq_emod_of_nonneg (by omega : 0 ≤ -n), Int.neg_tmod, Int.neg_neg]
    rw [hneg]
    omega

/-- **A text** comes back exactly when it is empty or the method is not negative or a multiple of 16. -/
theorem simtbl_roundTrips_iff {aiMethod : Int} {text : List UInt8} (htext : ∀ c ∈ text, Printable c) :
    RoundTrips aiMethod text ↔ text = [] ∨ 0 ≤ aiMethod ∨ 16 ∣ aiMethod := by
  refine ⟨?_, ?_⟩
  · intro ⟨hrow, _⟩
    by_cases hnil : text = []
    · exact .inl hnil
    · exact .inr (tmod_nonneg_iff.1 (hrow hnil).1)
  · intro h
    by_cases hnil : text = []
    · subst hnil
      exact ⟨fun hne => absurd rfl hne, [], rfl, rfl, by simp, rfl⟩
    · have hpos : 0 ≤ aiMethod.tmod 16 := tmod_nonneg_iff.2 (h.resolve_left hnil)
      have hlt : aiMethod.tmod 16 < 16 := Int.tmod_lt_of_pos aiMethod (by decide)
      obtain ⟨row, hrow⟩ := Int.eq_ofNat_of_zero_le hpos
      unfold RoundTrips simtblEncode simtblDecode
      rw [hrow] at hpos hlt ⊢
      exact ⟨fun _ => ⟨hpos, hlt⟩, substitute_inverse (by omega) htext⟩

theorem simtbl_roundTrips_negative : RoundTrips (-32) [0x20, 0x41, 0x7e] :=
  (simtbl_roundTrips_iff (by decide +kernel)).2 (.inr (.inr (by decide)))

/-- With the method -1, the first character is looked for in the row before the table. -/
theorem simtbl_roundTrips_fails : ¬RoundTrips (-1) [0x41] := by
  intro ⟨_, out, henc, _⟩
  have hfault : simtblEncode (-1) [0x41] = .fault := substitute_negative (by decide) (by decide)
  rw [hfault] at henc
  cases henc

end Utils.Simtbl
